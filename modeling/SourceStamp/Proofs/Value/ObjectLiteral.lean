import SourceStamp.Value
import SourceStamp.Proofs.Text.Decimal
import SourceStamp.Proofs.Text.StringLiteral

/-!
# Object literals

A reader of object literals: fields in braces, a name or a string literal as the key of each, and
string literals, decimal integers and further object literals as their values.

- `ObjectLiteral.value?`, `ObjectLiteral.members?`: a value, and the fields of an object up to its
  closing brace.
- `ObjectLiteral.read?`: the fields of a text that is one object literal.
- `ObjectLiteral.members?_of_comma`, `ObjectLiteral.members?_of_brace`: how one field is read.
-/

namespace SourceStamp.ObjectLiteral

/-- The characters that separate the tokens of a literal and mean nothing else. -/
def spaces : List Char := [' ', '\t', '\n', '\r']

/-- Whether a character is one of them. -/
def isSpace (c : Char) : Bool := spaces.contains c

/-- A text without the space before it. -/
def skip (t : Text) : Text := t.dropWhile isSpace

/-- Whether a character may stand in a name. -/
def isNameChar (c : Char) : Bool := c.isAlphanum || c == '_' || c == '$'

/-- The key of a field, a name or a string literal, and what follows it. -/
def key? (t : Text) : Option (Text × Text) :=
  match t with
  | '\x22' :: rest => Text.readLiteral? rest
  | _ =>
    let name := t.takeWhile isNameChar
    -- no name is empty or starts with a digit
    if name.head?.all Char.isDigit then none else some (name, t.drop name.length)

/-- A decimal integer without leading zeros, and what follows it. -/
def integer? (t : Text) : Option (Nat × Text) :=
  let digits := t.takeWhile Char.isDigit
  let n := Text.valueOfDigits (digits.map Text.asciiValue)
  if digits = Text.ofNat n then some (n, t.drop digits.length) else none

mutual

/-- A value and what follows it. The number bounds the fields and objects on the way to it. -/
def value? : Nat → Text → Option (Value × Text)
  | 0, _ => none
  | bound + 1, t =>
    match skip t with
    | '{' :: rest => (members? bound [] rest).map (Prod.map Value.object id)
    | '\x22' :: rest => (Text.readLiteral? rest).map (Prod.map Value.text id)
    | rest => (integer? rest).map (Prod.map (fun n : Nat => Value.int n) id)

/-- The fields of an object whose opening brace and first fields are read, and what follows its
closing brace. Of two fields of one name the later one counts. -/
def members? : Nat → Fields → Text → Option (Fields × Text)
  | 0, _, _ => none
  | bound + 1, fields, t =>
    match skip t with
    | '}' :: rest => some (fields, rest)
    | start =>
      match key? start with
      | none => none
      | some (key, rest) =>
        match skip rest with
        | ':' :: rest =>
          match value? bound rest with
          | none => none
          | some (v, rest) =>
            match skip rest with
            | ',' :: rest => members? bound (fields.set key v) rest
            | '}' :: rest => some (fields.set key v, rest)
            | _ => none
        | _ => none

end

/-- The fields of a text that is one object literal. -/
def read? (t : Text) : Option Fields :=
  -- every field and every object takes up a character at least
  match value? t.length t with
  | some (.object fields, rest) => if (skip rest).isEmpty then some fields else none
  | _ => none

theorem ne_of_class {p : Char → Bool} {c d : Char} (hc : p c = true) (hd : p d = false) :
    c ≠ d := by
  rintro rfl
  rw [hc] at hd
  cases hd

/-- A token starts with a character of a class without space. -/
theorem skip_space_cons {p : Char → Bool} (hp : spaces.all (!p ·) = true) {c : Char}
    (hc : p c = true) (t : Text) : skip (' ' :: c :: t) = c :: t := by
  have hspace : isSpace c = false := by
    rw [Bool.eq_false_iff]
    intro h
    have hout := List.all_eq_true.mp hp c (List.contains_iff_mem.mp h)
    rw [hc] at hout
    cases hout
  rw [skip, List.dropWhile_cons_of_pos (by decide),
    List.dropWhile_cons_of_neg (by rw [hspace]; exact Bool.false_ne_true)]

/-! ## Values -/

theorem value?_text (bound : Nat) (t rest : Text) :
    value? (bound + 1) (' ' :: (Text.stringLiteral t ++ rest)) = some (.text t, rest) := by
  have hliteral : Text.stringLiteral t ++ rest =
      '\x22' :: (t.flatMap Text.literalChar ++ Text.doubleQuote :: rest) := by
    simp [Text.stringLiteral, Text.doubleQuote]
  rw [hliteral, value?]
  show (Text.readLiteral? (t.flatMap Text.literalChar ++ Text.doubleQuote :: rest)).map _ = _
  rw [Text.readLiteral?_stringLiteral]
  rfl

/-- A number is read back up to a character that is no digit. -/
theorem integer?_ofNat (n : Nat) {rest : Text} (hrest : rest.takeWhile Char.isDigit = []) :
    integer? (Text.ofNat n ++ rest) = some (n, rest) := by
  have hdigits : (Text.ofNat n ++ rest).takeWhile Char.isDigit = Text.ofNat n := by
    rw [List.takeWhile_append_of_pos fun c => Text.isDigit_of_mem_ofNat, hrest, List.append_nil]
  simp only [integer?, hdigits, Text.valueOfDigits_ofNat, if_true, List.drop_left]

theorem value?_int (bound n : Nat) {rest : Text} (hrest : rest.takeWhile Char.isDigit = []) :
    value? (bound + 1) (' ' :: (Text.ofNat n ++ rest)) = some (.int n, rest) := by
  have hread := integer?_ofNat n hrest
  obtain ⟨c, digits, hdigits⟩ := List.exists_cons_of_ne_nil (Text.ofNat_ne_nil n)
  have hdigit : c.isDigit = true :=
    Text.isDigit_of_mem_ofNat (by rw [hdigits]; exact List.mem_cons_self)
  have hskip : skip (' ' :: (Text.ofNat n ++ rest)) = Text.ofNat n ++ rest := by
    rw [hdigits]
    exact skip_space_cons (by decide) hdigit _
  rw [value?, hskip]
  -- the first digit is neither a brace nor a quote
  split
  · next h => exact absurd (List.cons.inj (hdigits ▸ h)).1 (ne_of_class hdigit rfl)
  · next h => exact absurd (List.cons.inj (hdigits ▸ h)).1 (ne_of_class hdigit rfl)
  · rw [hread]
    rfl

/-! ## Fields -/

/-- A name that may stand as a key: it is not empty and does not start with a digit. -/
structure IsName (name : Text) : Prop where
  chars : name.all isNameChar = true
  start : name.head?.all Char.isDigit = false

section Fields

variable {key : Text} (hname : IsName key) (rest : Text)

include hname

/-- A name starts with a character of names. -/
theorem IsName.exists_cons : ∃ c name, key = c :: name ∧ isNameChar c = true := by
  obtain ⟨hchars, hstart⟩ := hname
  cases key with
  | nil => cases hstart
  | cons c name => exact ⟨c, name, rfl, List.all_eq_true.mp hchars c List.mem_cons_self⟩

theorem IsName.skip_eq : skip (' ' :: (key ++ ':' :: rest)) = key ++ ':' :: rest := by
  obtain ⟨c, name, rfl, hc⟩ := hname.exists_cons
  exact skip_space_cons (by decide) hc _

theorem IsName.key?_eq : key? (key ++ ':' :: rest) = some (key, ':' :: rest) := by
  have htake : (key ++ ':' :: rest).takeWhile isNameChar = key := by
    rw [List.takeWhile_append_of_pos (List.all_eq_true.mp hname.chars),
      List.takeWhile_cons_of_neg (by decide), List.append_nil]
  obtain ⟨c, name, hkey, hc⟩ := hname.exists_cons
  rw [key?]
  · simp only [htake, hname.start, Bool.false_eq_true, if_false, List.drop_left]
  · -- no string literal
    intro _ h
    exact absurd (List.cons.inj (hkey ▸ h)).1 (ne_of_class hc (by decide))

variable {bound : Nat} {fields : Fields} {afterColon afterValue rest : Text} {v : Value}
  (hvalue : value? bound afterColon = some (v, afterValue))

include hvalue

/-- A field before a comma. -/
theorem members?_of_comma (hcomma : skip afterValue = ',' :: rest) :
    members? (bound + 1) fields (' ' :: (key ++ ':' :: afterColon)) =
      members? bound (fields.set key v) rest := by
  obtain ⟨c, name, hkey, hc⟩ := hname.exists_cons
  rw [members?, hname.skip_eq]
  split
  · next h => exact absurd (List.cons.inj (hkey ▸ h)).1 (ne_of_class hc (by decide))
  · have hcolon : skip (':' :: afterColon) = ':' :: afterColon := rfl
    simp only [hname.key?_eq, hcolon, hvalue, hcomma]

/-- A field before the closing brace. -/
theorem members?_of_brace (hclosing : skip afterValue = '}' :: rest) :
    members? (bound + 1) fields (' ' :: (key ++ ':' :: afterColon)) =
      some (fields.set key v, rest) := by
  obtain ⟨c, name, hkey, hc⟩ := hname.exists_cons
  rw [members?, hname.skip_eq]
  split
  · next h => exact absurd (List.cons.inj (hkey ▸ h)).1 (ne_of_class hc (by decide))
  · have hcolon : skip (':' :: afterColon) = ':' :: afterColon := rfl
    simp only [hname.key?_eq, hcolon, hvalue, hclosing]

end Fields

end SourceStamp.ObjectLiteral
