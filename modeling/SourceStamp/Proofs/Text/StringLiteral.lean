import Mathlib.Tactic.SplitIfs
import SourceStamp.Text.Escape

/-!
# String literals

A reader of string literals in double quotes, and that it undoes `Text.stringLiteral`.

- `Text.utf16`, `Text.ofUtf16?`: texts as units of sixteen bits, two of them for a character above
  the basic plane. Surrogates that stand alone are no text.
- `Text.literalUnits?`: the units of a literal up to its closing quote.
- `Text.readLiteral?_stringLiteral`: every text is read back.
-/

namespace SourceStamp.Text

/-! ## Units of sixteen bits -/

/-- The units of a character: its code point, or two surrogates above the basic plane. -/
def utf16 (c : Char) : List Nat :=
  if c.toNat < 0x10000 then [c.toNat]
  else [0xD800 + (c.toNat - 0x10000) / 0x400, 0xDC00 + (c.toNat - 0x10000) % 0x400]

/-- Whether a unit is the first one of a pair. -/
def isHighSurrogate (unit : Nat) : Bool := 0xD800 ≤ unit && unit < 0xDC00

/-- Whether a unit is the second one of a pair. -/
def isLowSurrogate (unit : Nat) : Bool := 0xDC00 ≤ unit && unit < 0xE000

/-- The text of units; none if a surrogate stands alone. -/
def ofUtf16? : List Nat → Option Text
  | [] => some []
  | unit :: units =>
    if isHighSurrogate unit then
      match units with
      | [] => none
      | low :: units =>
        if isLowSurrogate low then
          (ofUtf16? units).map
            (Char.ofNat (0x10000 + (unit - 0xD800) * 0x400 + (low - 0xDC00)) :: ·)
        else none
    else if isLowSurrogate unit then none
    else (ofUtf16? units).map (Char.ofNat unit :: ·)

theorem ofUtf16?_utf16_append (c : Char) (units : List Nat) :
    ofUtf16? (utf16 c ++ units) = (ofUtf16? units).map (c :: ·) := by
  have hvalid : c.toNat < 0xD800 ∨ 0xDFFF < c.toNat ∧ c.toNat < 0x110000 := c.valid
  rw [utf16]
  by_cases hbasic : c.toNat < 0x10000
  · have hhigh : isHighSurrogate c.toNat = false := by
      simp only [isHighSurrogate, Bool.and_eq_false_iff, decide_eq_false_iff_not]
      omega
    have hlow : isLowSurrogate c.toNat = false := by
      simp only [isLowSurrogate, Bool.and_eq_false_iff, decide_eq_false_iff_not]
      omega
    rw [if_pos hbasic, List.singleton_append, ofUtf16?.eq_def]
    simp only [hhigh, hlow, Bool.false_eq_true, if_false, Char.ofNat_toNat]
  · have hhigh : isHighSurrogate (0xD800 + (c.toNat - 0x10000) / 0x400) = true := by
      simp only [isHighSurrogate, Bool.and_eq_true, decide_eq_true_eq]
      omega
    have hlow : isLowSurrogate (0xDC00 + (c.toNat - 0x10000) % 0x400) = true := by
      simp only [isLowSurrogate, Bool.and_eq_true, decide_eq_true_eq]
      omega
    have hpoint : 0x10000 + (0xD800 + (c.toNat - 0x10000) / 0x400 - 0xD800) * 0x400 +
        (0xDC00 + (c.toNat - 0x10000) % 0x400 - 0xDC00) = c.toNat := by
      omega
    rw [if_neg hbasic, List.cons_append, List.singleton_append, ofUtf16?.eq_def]
    simp only [hhigh, hlow, if_true, hpoint, Char.ofNat_toNat]

theorem ofUtf16?_utf16 (t : Text) : ofUtf16? (t.flatMap utf16) = some t := by
  induction t with
  | nil => rfl
  | cons c t ih =>
    rw [List.flatMap_cons, ofUtf16?_utf16_append, ih]
    rfl

/-! ## Reading a literal -/

/-- The value of a hexadecimal digit. -/
def hexValue? (c : Char) : Option Nat :=
  if c.isDigit then some (c.toNat - 48)
  else if 97 ≤ c.toNat ∧ c.toNat ≤ 102 then some (c.toNat - 87)
  else if 65 ≤ c.toNat ∧ c.toNat ≤ 70 then some (c.toNat - 55)
  else none

/-- The unit of four hexadecimal digits. -/
def hexUnit? (a b c d : Char) : Option Nat := do
  return 4096 * (← hexValue? a) + 256 * (← hexValue? b) + 16 * (← hexValue? c) + (← hexValue? d)

/-- The unit that a letter stands for after a backslash. -/
def escapedUnit? (c : Char) : Option Nat :=
  match c with
  | '\x22' => some 0x22
  | '\x5c' => some 0x5c
  | '/' => some 0x2f
  | 'b' => some 8
  | 'f' => some 12
  | 'n' => some 10
  | 'r' => some 13
  | 't' => some 9
  | _ => none

/-- The units of a literal whose opening quote is read, and what follows its closing quote. -/
def literalUnits? : Text → Option (List Nat × Text)
  | [] => none
  | '\x22' :: rest => some ([], rest)
  | '\x5c' :: 'u' :: a :: b :: c :: d :: rest =>
    (hexUnit? a b c d).bind fun unit => (literalUnits? rest).map (Prod.map (unit :: ·) id)
  | '\x5c' :: c :: rest =>
    (escapedUnit? c).bind fun unit => (literalUnits? rest).map (Prod.map (unit :: ·) id)
  | c :: rest =>
    if c.toNat < 32 then none else (literalUnits? rest).map (Prod.map (utf16 c ++ ·) id)

/-- The text of a literal whose opening quote is read, and what follows its closing quote. -/
def readLiteral? (t : Text) : Option (Text × Text) :=
  (literalUnits? t).bind fun (units, rest) => (ofUtf16? units).map (·, rest)

/-! ## Reading back -/

theorem hexUnit?_hexDigits {n : Nat} (h : n < 0x10000) :
    ∃ a b c d, hexDigits 4 n = [a, b, c, d] ∧ hexUnit? a b c d = some n := by
  have hdigit : ∀ k < 16, hexValue? (hexDigit k) = some k := by decide
  refine ⟨_, _, _, _, rfl, ?_⟩
  rw [hexUnit?, hdigit _ (Nat.mod_lt _ (by decide)), hdigit _ (Nat.mod_lt _ (by decide)),
    hdigit _ (Nat.mod_lt _ (by decide)), hdigit _ (Nat.mod_lt _ (by decide))]
  show some _ = some n
  congr 1
  omega

theorem literalUnits?_unitEscape {n : Nat} (h : n < 0x10000) (rest : Text) :
    literalUnits? (unitEscape n ++ rest) = (literalUnits? rest).map (Prod.map (n :: ·) id) := by
  obtain ⟨a, b, c, d, hdigits, hunit⟩ := hexUnit?_hexDigits h
  rw [unitEscape, hdigits]
  show (hexUnit? a b c d).bind _ = _
  rw [hunit]
  rfl

theorem literalUnits?_codePointEscape (c : Char) (rest : Text) :
    literalUnits? (codePointEscape c.toNat ++ rest) =
      (literalUnits? rest).map (Prod.map (utf16 c ++ ·) id) := by
  have hvalid : c.toNat < 0xD800 ∨ 0xDFFF < c.toNat ∧ c.toNat < 0x110000 := c.valid
  rw [codePointEscape, utf16]
  by_cases hbasic : c.toNat < 0x10000
  · rw [if_pos hbasic, if_pos hbasic]
    exact literalUnits?_unitEscape hbasic rest
  · rw [if_neg hbasic, if_neg hbasic, List.append_assoc, literalUnits?_unitEscape (by omega),
      literalUnits?_unitEscape (by omega), Option.map_map]
    rfl

/-- A character that stands for itself. -/
theorem literalUnits?_cons {c : Char} (hquote : c ≠ doubleQuote) (hbackslash : c ≠ backslash)
    (hprintable : 32 ≤ c.toNat) (rest : Text) :
    literalUnits? (c :: rest) = (literalUnits? rest).map (Prod.map (utf16 c ++ ·) id) := by
  rw [literalUnits?.eq_def]
  split
  · next h => cases h
  · next h => exact absurd (List.cons.inj h).1 hquote
  · next h => exact absurd (List.cons.inj h).1 hbackslash
  · next h => exact absurd (List.cons.inj h).1 hbackslash
  · next h =>
    obtain ⟨rfl, rfl⟩ := List.cons.inj h
    rw [if_neg (Nat.not_lt.mpr hprintable)]

/-- What a literal writes for a character is read as the units of the character. -/
theorem literalUnits?_literalChar (c : Char) (rest : Text) :
    literalUnits? (literalChar c ++ rest) =
      (literalUnits? rest).map (Prod.map (utf16 c ++ ·) id) := by
  have hcode : ∀ {n : Nat}, c.toNat = n → c = Char.ofNat n := by
    rintro n rfl
    exact (Char.ofNat_toNat c).symm
  unfold literalChar
  -- escapes of one letter, then the character itself, then its code point
  split_ifs with hquote hbackslash hnewline hreturn htab hbackspace hfeed hprintable
  · subst hquote
    rfl
  · subst hbackslash
    rfl
  · subst hnewline
    rfl
  · subst hreturn
    rfl
  · subst htab
    rfl
  · rw [hcode hbackspace]
    rfl
  · rw [hcode hfeed]
    rfl
  · exact literalUnits?_cons hquote hbackslash hprintable.1 rest
  · exact literalUnits?_codePointEscape c rest

theorem literalUnits?_stringLiteral (t rest : Text) :
    literalUnits? (t.flatMap literalChar ++ doubleQuote :: rest) =
      some (t.flatMap utf16, rest) := by
  induction t with
  | nil => rfl
  | cons c t ih =>
    rw [List.flatMap_cons, List.append_assoc, literalUnits?_literalChar, ih]
    rfl

/-- A text is read back from its literal, whatever characters it holds. -/
theorem readLiteral?_stringLiteral (t rest : Text) :
    readLiteral? (t.flatMap literalChar ++ doubleQuote :: rest) = some (t, rest) := by
  rw [readLiteral?, literalUnits?_stringLiteral, Option.bind_some]
  show (ofUtf16? (t.flatMap utf16)).map (·, rest) = some (t, rest)
  rw [ofUtf16?_utf16]
  rfl

end SourceStamp.Text
