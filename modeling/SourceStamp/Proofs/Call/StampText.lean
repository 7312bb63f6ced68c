import SourceStamp.Call.Stamp
import SourceStamp.ModulePath
import SourceStamp.Proofs.Lexis.CodeText
import SourceStamp.Proofs.Text.Decimal

/-!
# The texts of stamps

Whatever a path holds, the text that an edit inserts opens nothing in the source text and completes
nothing that stands before it.

- `ModulePath.backslash_not_mem_stampName`: no backslash comes into a stamp, so the string literal
  in it ends where it should.
- `Stamp.Inserted`: the texts that edits insert, and `Stamp.furtherArguments`: some of them.
- `Stamp.inert_insertText`: the texts of all edits are inert.
- `Stamp.Inserted.writes`: the characters of those texts.
-/

namespace SourceStamp

open Text (backslash)
open Reading (Closed Inert)

/-! ## Paths -/

namespace ModulePath

theorem mem_of_mem_withoutFinalNewline {t : Text} {c : Char}
    (h : c ∈ Text.withoutFinalNewline t) : c ∈ t := by
  unfold Text.withoutFinalNewline at h
  split at h
  · exact (List.dropLast_sublist t).subset h
  · exact h

theorem mem_of_mem_withoutExtension {path : Text} {c : Char} (h : c ∈ withoutExtension path) :
    c ∈ path := by
  unfold withoutExtension at h
  dsimp only at h
  split at h
  · rcases List.mem_append.mp h with h | h
    · exact mem_of_mem_withoutFinalNewline (List.mem_of_mem_take h)
    · exact List.mem_of_mem_drop h
  · exact h

/-- The path that a stamp names is written with slashes. -/
theorem backslash_not_mem_stampName (path : Text) : backslash ∉ stampName path := by
  intro h
  obtain ⟨c, -, hc⟩ := List.mem_map.mp (mem_of_mem_withoutExtension h)
  split at hc
  · exact absurd hc (by decide)
  · next hne => exact hne hc

end ModulePath

/-! ## Stamps -/

namespace Stamp

/-- A number is written in digits, perhaps after a sign. -/
theorem all_ofInt {p : Char → Bool} (hdigit : ∀ k < 10, p (Char.ofNat (48 + k)) = true)
    (hsign : p '-' = true) (n : Int) : (Text.ofInt n).all p = true := by
  have hdigits : ∀ k : Nat, (Text.ofNat k).all p = true := by
    intro k
    rw [List.all_eq_true]
    intro c hc
    obtain ⟨hlow, hhigh⟩ : 48 ≤ c.toNat ∧ c.toNat ≤ 57 :=
      Char.isDigit_iff_toNat.mp (Text.isDigit_of_mem_ofNat hc)
    have := hdigit (c.toNat - 48) (by omega)
    rwa [Nat.add_sub_cancel' hlow, Char.ofNat_toNat] at this
  cases n with
  | ofNat k => exact hdigits k
  | negSucc k => exact Bool.and_eq_true_iff.mpr ⟨hsign, hdigits (k + 1)⟩

theorem closed_ofInt (n : Int) : Closed (Text.ofInt n) :=
  Reading.closed_of_plain (all_ofInt (by decide) (by decide) n)

theorem closed_join {separator : Text} (hs : Closed separator) {parts : List Text}
    (h : ∀ t ∈ parts, Closed t) : Closed (Text.join separator parts) := by
  fun_induction Text.join separator parts with
  | case1 => exact Reading.closed_nil
  | case2 t => exact h t List.mem_cons_self
  | case3 t rest _ ih =>
    exact ((h t List.mem_cons_self).append hs).append
      (ih fun t' ht' => h t' (List.mem_cons_of_mem t ht'))

variable {file : Text} {line : Int}

theorem closed_property (hfile : file.getLast? ≠ some backslash) : Closed (property file line) := by
  have hopening : Closed "__source: \x7b fileName: ".toList :=
    Reading.closed_of_plain (by decide)
  have hbetween : Closed ", lineNumber: ".toList := Reading.closed_of_plain (by decide)
  have hclosing : Closed " \x7d".toList := Reading.closed_of_plain (by decide)
  exact (((hopening.append (Reading.closed_stringLiteral hfile)).append hbetween).append
    (closed_ofInt line)).append hclosing

theorem closed_object (hfile : file.getLast? ≠ some backslash) : Closed (object file line) := by
  have hopening : Closed "\x7b ".toList := Reading.closed_of_plain (by decide)
  have hclosing : Closed " \x7d".toList := Reading.closed_of_plain (by decide)
  exact (hopening.append (closed_property hfile)).append hclosing

theorem closed_separator (afterComma : Bool) : Closed (separator afterComma) := by
  cases afterComma <;> exact Reading.closed_of_plain (by decide)

theorem inert_object (hfile : file.getLast? ≠ some backslash) : Inert (object file line) :=
  ⟨closed_object hfile, '\x7b', rfl, by decide, by decide⟩

theorem inert_separator_append {afterComma : Bool} {t : Text} (h : Closed t) :
    Inert (separator afterComma ++ t) := by
  refine ⟨(closed_separator afterComma).append h, ?_⟩
  cases afterComma with
  | false => exact ⟨',', rfl, by decide, by decide⟩
  | true => exact ⟨' ', rfl, by decide, by decide⟩

/-- The arguments that are added to a call: undefined ones and the stamp. -/
def furtherArguments (n : Nat) (file : Text) (line : Int) : Text :=
  Text.join ", ".toList (List.replicate n placeholder ++ [object file line])

theorem furtherArguments_succ (n : Nat) (file : Text) (line : Int) :
    furtherArguments (n + 1) file line =
      placeholder ++ (", ".toList ++ furtherArguments n file line) := by
  cases n with
  | zero => exact List.append_assoc _ _ _
  | succ n => exact List.append_assoc _ _ _

theorem exists_furtherArguments_eq_cons (n : Nat) (file : Text) (line : Int) :
    ∃ c rest, (c = 'u' ∨ c = '{') ∧ furtherArguments n file line = c :: rest := by
  cases n with
  | zero => exact ⟨'{', _, .inr rfl, rfl⟩
  | succ n =>
    rw [furtherArguments_succ]
    exact ⟨'u', _, .inl rfl, rfl⟩

/-- The texts that edits insert: a stamp, a stamp as a further property, and a stamp as the last of
further arguments. -/
inductive Inserted (file : Text) (line : Int) : Text → Prop where
  | object : Inserted file line (object file line)
  | property (afterComma : Bool) : Inserted file line (separator afterComma ++ property file line)
  | arguments (afterComma : Bool) (n : Nat) :
    Inserted file line (separator afterComma ++
      Text.join ", ".toList (List.replicate n placeholder ++ [Stamp.object file line]))

theorem inserted {kind : CalleeKind} {list : ArgumentList} {e : Edit}
    (he : editFor kind list file line = some e) : Inserted file line e.insertText := by
  obtain ⟨close, -, hform⟩ := exists_editForm he
  cases hform with
  | whole | literal => exact .object
  | joined => exact .property _
  | added n => exact .arguments _ n

/-- **The texts of edits**: what stamps a call opens nothing, whatever it names, as long as that
does not end with a backslash. -/
theorem inert_insertText (hfile : file.getLast? ≠ some backslash) {kind : CalleeKind} {list : ArgumentList}
    {e : Edit} (he : editFor kind list file line = some e) : Inert e.insertText := by
  have hinserted := inserted he
  generalize e.insertText = t at hinserted
  cases hinserted with
  | object => exact inert_object hfile
  | property afterComma => exact inert_separator_append (closed_property hfile)
  | arguments afterComma n =>
    refine inert_separator_append (closed_join (Reading.closed_of_plain (by decide)) ?_)
    intro t ht
    rcases List.mem_append.mp ht with ht | ht
    · rw [List.eq_of_mem_replicate ht]
      exact Reading.closed_of_plain (by decide)
    · rw [List.mem_singleton.mp ht]
      exact closed_object hfile

/-! ## The characters of a stamp -/

/-- A character that a stamp may have besides those of its path: printable ASCII, but no bracket of
a call, a type or an index. -/
def isFixed (c : Char) : Bool :=
  32 ≤ c.toNat && c.toNat < 127 && c != '(' && c != ')' && c != '<' && c != '>' && c != '[' &&
    c != ']'

/-- A text of characters of the path, as far as they are printable ASCII, and fixed ones. -/
def Writes (file t : Text) : Prop :=
  ∀ c ∈ t, c ∈ file ∧ 32 ≤ c.toNat ∧ c.toNat < 127 ∨ isFixed c = true

theorem writes_of_fixed {t : Text} (h : t.all isFixed = true) : Writes file t :=
  fun c hc => .inr (List.all_eq_true.mp h c hc)

theorem Writes.append {s t : Text} (hs : Writes file s) (ht : Writes file t) :
    Writes file (s ++ t) := by
  intro c hc
  rcases List.mem_append.mp hc with hc | hc
  · exact hs c hc
  · exact ht c hc

theorem fixed_ofInt (n : Int) : (Text.ofInt n).all isFixed = true :=
  all_ofInt (by decide) (by decide) n

theorem fixed_unitEscape (n : Nat) : (Text.unitEscape n).all isFixed = true := by
  have hdigit : ∀ k < 16, isFixed (Text.hexDigit k) = true := by decide
  have hdigits : (Text.hexDigits 4 n).all isFixed = true := by
    rw [List.all_eq_true]
    intro c hc
    obtain ⟨k, hk, rfl⟩ := Reading.exists_of_mem_hexDigits hc
    exact hdigit k hk
  rw [Text.unitEscape, List.all_cons, List.all_cons, hdigits]
  decide

theorem mem_literalChar {c d : Char} (h : d ∈ Text.literalChar c) :
    d = c ∧ 32 ≤ c.toNat ∧ c.toNat < 127 ∨ isFixed d = true := by
  have hfixed : ∀ {t : Text}, t.all isFixed = true → d ∈ t → isFixed d = true :=
    fun ht hd => List.all_eq_true.mp ht d hd
  unfold Text.literalChar at h
  -- escapes of one letter, then the character itself, then its code point
  repeat' split at h
  iterate 7 exact .inr (hfixed (by decide) h)
  · next hprintable =>
    rw [List.mem_singleton.mp h]
    exact .inl ⟨rfl, hprintable⟩
  · unfold Text.codePointEscape at h
    split at h
    · exact .inr (hfixed (fixed_unitEscape _) h)
    · rcases List.mem_append.mp h with h | h
      · exact .inr (hfixed (fixed_unitEscape _) h)
      · exact .inr (hfixed (fixed_unitEscape _) h)

theorem writes_stringLiteral (file : Text) : Writes file (Text.stringLiteral file) := by
  have hquote : Writes file [Text.doubleQuote] := writes_of_fixed (by decide)
  have hchars : Writes file (file.flatMap Text.literalChar) := by
    intro c hc
    obtain ⟨d, hd, hc⟩ := List.mem_flatMap.mp hc
    rcases mem_literalChar hc with ⟨rfl, hprintable⟩ | hc
    · exact .inl ⟨hd, hprintable⟩
    · exact .inr hc
  exact hquote.append (hchars.append hquote)

theorem writes_property : Writes file (property file line) :=
  ((((writes_of_fixed (by decide)).append (writes_stringLiteral file)).append
    (writes_of_fixed (by decide))).append (writes_of_fixed (fixed_ofInt line))).append
      (writes_of_fixed (by decide))

theorem writes_object : Writes file (object file line) :=
  ((writes_of_fixed (by decide)).append writes_property).append
    (writes_of_fixed (by decide))

theorem writes_separator (afterComma : Bool) : Writes file (separator afterComma) := by
  cases afterComma <;> exact writes_of_fixed (by decide)

theorem writes_join {between : Text} (hb : Writes file between) {parts : List Text}
    (h : ∀ t ∈ parts, Writes file t) : Writes file (Text.join between parts) := by
  fun_induction Text.join between parts with
  | case1 => exact fun c hc => nomatch hc
  | case2 t => exact h t List.mem_cons_self
  | case3 t rest _ ih =>
    exact ((h t List.mem_cons_self).append hb).append
      (ih fun t' ht' => h t' (List.mem_cons_of_mem t ht'))

/-- What stamps a call is written in printable ASCII, and only the path brings in other characters
than the fixed ones. -/
theorem Inserted.writes {t : Text} (h : Inserted file line t) : Writes file t := by
  cases h with
  | object => exact writes_object
  | property afterComma => exact (writes_separator afterComma).append writes_property
  | arguments afterComma n =>
    refine (writes_separator afterComma).append
      (writes_join (writes_of_fixed (by decide)) ?_)
    intro t ht
    rcases List.mem_append.mp ht with ht | ht
    · rw [List.eq_of_mem_replicate ht]
      exact writes_of_fixed (by decide)
    · rw [List.mem_singleton.mp ht]
      exact writes_object

/-- What stamps a call stands in one line. -/
theorem Inserted.not_mem {t : Text} (h : Inserted file line t) {c : Char} (hc : c.toNat < 32) :
    c ∉ t := by
  intro hm
  rcases h.writes c hm with ⟨-, hle, -⟩ | hfixed
  · omega
  · simp only [isFixed, Bool.and_eq_true, decide_eq_true_eq] at hfixed
    omega

end Stamp
end SourceStamp
