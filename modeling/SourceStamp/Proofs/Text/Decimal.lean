import Mathlib.Algebra.Group.Nat.Defs
import SourceStamp.Proofs.Text.Lines
import SourceStamp.Text.Numeral

/-!
# Decimal numerals

- `Text.isDigit_of_mem_ofNat`, `Text.valueOfDigits_ofNat`: a number is written in ASCII digits,
  which have its value.
- `Text.ofInt_injective`: so different integers have different numerals.
- `Text.isWritable_iff`: which numbers can be written.
- `Text.number?_ofNat`: those are read back, and by `Text.isWritable_of_number?` no others are read.
-/

namespace SourceStamp.Text

/-- The value of an ASCII digit. -/
def asciiValue (c : Char) : Nat := c.toNat - 48

theorem isDigit_of_mem_ofNat {n : Nat} {c : Char} (h : c ∈ ofNat n) : c.isDigit = true := by
  rw [ofNat, Nat.toList_repr] at h
  exact Nat.isDigit_of_mem_toDigits (by decide) (by decide) h

theorem ofNat_ne_nil (n : Nat) : ofNat n ≠ [] := by
  rw [ofNat, Nat.toList_repr]
  exact Nat.toDigits_ne_nil

theorem inLine_ofNat (n : Nat) : InLine (ofNat n) := by
  intro c hc
  obtain ⟨hlow, hhigh⟩ : 48 ≤ c.toNat ∧ c.toNat ≤ 57 :=
    Char.isDigit_iff_toNat.mp (isDigit_of_mem_ofNat hc)
  rw [isLineBreak]
  grind

theorem digit?_of_isDigit {c : Char} (h : c.isDigit = true) : digit? c = some (asciiValue c) := by
  obtain ⟨-, hhigh⟩ : 48 ≤ c.toNat ∧ c.toNat ≤ 57 := Char.isDigit_iff_toNat.mp h
  rw [digit?, if_pos (by omega), if_pos h, asciiValue]

theorem isDecimal_of_isDigit {c : Char} (h : c.isDigit = true) : isDecimal c = true := by
  rw [isDecimal, digit?_of_isDigit h]
  rfl

theorem mapM_digit? {t : Text} (h : ∀ c ∈ t, c.isDigit = true) :
    t.mapM digit? = some (t.map asciiValue) := by
  induction t with
  | nil => rfl
  | cons c t ih =>
    rw [List.forall_mem_cons] at h
    rw [List.mapM_cons, digit?_of_isDigit h.1, ih h.2]
    rfl

/-- The digits of all scripts have values. -/
theorem mapM_digit?_of_isDecimal {t : Text} (h : ∀ c ∈ t, isDecimal c = true) :
    t.mapM digit? = some (t.filterMap digit?) ∧
      (t.filterMap digit?).length = t.length := by
  induction t with
  | nil => exact ⟨rfl, rfl⟩
  | cons c t ih =>
    rw [List.forall_mem_cons] at h
    obtain ⟨d, hd⟩ := Option.isSome_iff_exists.mp h.1
    obtain ⟨hmap, hlength⟩ := ih h.2
    rw [List.filterMap_cons_some hd]
    refine ⟨?_, congrArg (· + 1) hlength⟩
    rw [List.mapM_cons, hd, hmap]
    rfl

theorem valueOfDigits_ofNat (n : Nat) : valueOfDigits ((ofNat n).map asciiValue) = n := by
  rw [ofNat, Nat.toList_repr, valueOfDigits, List.foldl_map]
  exact Nat.ofDigitChars_toDigits (by decide) (by decide)

theorem ofNat_injective {m n : Nat} (h : ofNat m = ofNat n) : m = n := by
  rw [← valueOfDigits_ofNat m, h, valueOfDigits_ofNat]

theorem ofNat_ne_cons_minus (n : Nat) (t : Text) : ofNat n ≠ '-' :: t := by
  intro h
  have hdigit : '-'.isDigit = true := isDigit_of_mem_ofNat (h ▸ List.mem_cons_self)
  exact absurd hdigit (by decide)

/-- Different integers have different numerals. -/
theorem ofInt_injective {m n : Int} (h : ofInt m = ofInt n) : m = n := by
  cases m with
  | ofNat j =>
    cases n with
    | ofNat k => exact congrArg Int.ofNat (ofNat_injective h)
    | negSucc k => exact absurd h (ofNat_ne_cons_minus _ _)
  | negSucc j =>
    cases n with
    | ofNat k => exact absurd h.symm (ofNat_ne_cons_minus _ _)
    | negSucc k =>
      have := ofNat_injective (List.cons.inj h).2
      omega

/-- A numeral has no other characters than digits and a minus sign. -/
theorem notMem_ofInt {c : Char} (hdigit : c.isDigit = false) (hminus : c ≠ '-') (n : Int) :
    c ∉ ofInt n := by
  have hdigits : ∀ k, c ∉ ofNat k := by
    intro k hmem
    rw [isDigit_of_mem_ofNat hmem] at hdigit
    cases hdigit
  cases n with
  | ofNat k => exact hdigits k
  | negSucc k => exact fun hmem => (List.mem_cons.mp hmem).elim hminus (hdigits (k + 1))

theorem isWritable_iff (n : Nat) : isWritable n = true ↔ n < 10 ^ longestNumeral := by
  rw [isWritable, decide_eq_true_eq, Int.natAbs_natCast, ofNat, Nat.toList_repr]
  exact Nat.length_toDigits_le_iff (by decide) (by decide)

/-- A number that can be written is read back. -/
theorem number?_ofNat {n : Nat} (h : isWritable n = true) : number? (ofNat n) = some n := by
  have hread : number? (ofNat n) = ((ofNat n).mapM digit?).bind boundedValue? := by
    rw [number?.eq_def]
    split
    · next hnil => exact absurd hnil (ofNat_ne_nil n)
    · rfl
  rw [isWritable, decide_eq_true_eq, Int.natAbs_natCast] at h
  rw [hread, mapM_digit? fun c => isDigit_of_mem_ofNat, Option.bind_some, boundedValue?,
    List.length_map, if_pos h, valueOfDigits_ofNat]

/-! ## Numbers that were read -/

theorem lt_of_digit? {c : Char} {d : Nat} (h : digit? c = some d) : d < 10 := by
  rw [digit?] at h
  split at h
  · split at h
    · next hdigit =>
      obtain ⟨-, hhigh⟩ : 48 ≤ c.toNat ∧ c.toNat ≤ 57 := Char.isDigit_iff_toNat.mp hdigit
      cases h
      omega
    · cases h
  · split at h
    · next z hz =>
      have hscript := List.find?_some hz
      simp only [Bool.and_eq_true, decide_eq_true_eq] at hscript
      cases h
      omega
    · cases h

theorem lt_of_mapM_digit? {t : Text} {ds : List Nat} (h : t.mapM digit? = some ds) :
    ∀ d ∈ ds, d < 10 := by
  induction t generalizing ds with
  | nil =>
    cases h
    simp
  | cons c t ih =>
    rw [List.mapM_cons] at h
    obtain ⟨d, hd, h⟩ := Option.bind_eq_some_iff.mp h
    obtain ⟨rest, hrest, h⟩ := Option.bind_eq_some_iff.mp h
    cases h
    exact List.forall_mem_cons.mpr ⟨lt_of_digit? hd, ih hrest⟩

/-- The value of digits has no more digits. -/
theorem valueOfDigits_lt {ds : List Nat} (h : ∀ d ∈ ds, d < 10) :
    valueOfDigits ds < 10 ^ ds.length := by
  induction ds using List.reverseRecOn with
  | nil => decide
  | append_singleton ds d ih =>
    have hbefore := ih fun d hd => h d (List.mem_append_left _ hd)
    have hlast := h d (List.mem_append_right _ (List.mem_singleton_self d))
    have hvalue : valueOfDigits (ds ++ [d]) = 10 * valueOfDigits ds + d := by
      rw [valueOfDigits, List.foldl_append]
      rfl
    rw [hvalue, List.length_append, List.length_singleton, Nat.pow_succ]
    omega

/-- A number that was read can be written. -/
theorem isWritable_of_number? {t : Text} {n : Nat} (h : number? t = some n) :
    isWritable n = true := by
  rw [number?.eq_def] at h
  split at h
  · cases h
  · obtain ⟨ds, hds, h⟩ := Option.bind_eq_some_iff.mp h
    rw [boundedValue?] at h
    split at h
    · next hlength =>
      cases h
      exact (isWritable_iff _).mpr (Nat.lt_of_lt_of_le (valueOfDigits_lt (lt_of_mapM_digit? hds))
        (Nat.pow_le_pow_right (by decide) hlength))
    · cases h

end SourceStamp.Text
