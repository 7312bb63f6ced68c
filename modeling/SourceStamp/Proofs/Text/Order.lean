import Mathlib.Data.List.Sort
import SourceStamp.Call.MonitoredNames

/-!
# The order of texts

- `Text.isAtMost_total`, `Text.isAtMost_trans`, `Text.isAtMost_antisymm`: the order by code points
  is a linear one.
- `Text.sorted_pairwise`: what is sorted by it ascends.
- `MonitoredNames.longestFirst_eq`: the longest names first, by insertion.
-/

namespace SourceStamp

namespace Text

theorem isAtMost_total (a b : Text) : (isAtMost a b || isAtMost b a) = true := by
  fun_induction isAtMost a b with
  | case1 b => rfl
  | case2 c r => simp [isAtMost]
  | case3 r c s ih => simpa [isAtMost] using ih
  | case4 c r c' s hne =>
    simp only [isAtMost, if_neg (Ne.symm hne), Bool.or_eq_true, decide_eq_true_eq]
    have : c.toNat ≠ c'.toNat := fun h => hne (Char.toNat_inj.mp h)
    omega

theorem isAtMost_trans {a b c : Text} (hab : isAtMost a b = true) (hbc : isAtMost b c = true) :
    isAtMost a c = true := by
  fun_induction isAtMost a b generalizing c with
  | case1 b => rfl
  | case2 d r => cases hab
  | case3 r d s ih =>
    cases c with
    | nil => cases hbc
    | cons e u =>
      rw [isAtMost] at hbc ⊢
      split
      · next he => exact ih hab (by rwa [if_pos he] at hbc)
      · next he => rwa [if_neg he] at hbc
  | case4 d r e s hne =>
    cases c with
    | nil => cases hbc
    | cons f u =>
      rw [isAtMost] at hbc ⊢
      rw [decide_eq_true_eq] at hab
      by_cases he : e = f
      · rw [← he, if_neg hne, decide_eq_true_eq]
        exact hab
      · rw [if_neg he, decide_eq_true_eq] at hbc
        rw [if_neg, decide_eq_true_eq]
        · omega
        · rintro rfl
          omega

theorem isAtMost_antisymm {a b : Text} (hab : isAtMost a b = true) (hba : isAtMost b a = true) :
    a = b := by
  fun_induction isAtMost a b with
  | case1 b =>
    cases b with
    | nil => rfl
    | cons c r => cases hba
  | case2 c r => cases hab
  | case3 r c s ih => rw [ih hab (by simpa [isAtMost] using hba)]
  | case4 c r d s hne =>
    rw [isAtMost, if_neg (Ne.symm hne), decide_eq_true_eq] at hba
    rw [decide_eq_true_eq] at hab
    omega

/-- A text comes before another one. -/
def Before (a b : Text) : Prop := isAtMost a b = true ∧ a ≠ b

theorem Before.asymm {a b : Text} (h : Before a b) : ¬ Before b a :=
  fun h' => h.2 (isAtMost_antisymm h.1 h'.1)

/-- Texts of which none is there twice, in ascending order. -/
theorem sorted_pairwise {ts : List Text} (h : ts.Nodup) : (sorted ts).Pairwise Before := by
  have hsorted : (sorted ts).Pairwise fun a b => isAtMost a b = true :=
    @List.pairwise_mergeSort Text isAtMost (fun _ _ _ => isAtMost_trans) isAtMost_total ts
  exact hsorted.imp₂ (fun _ _ hle hne => ⟨hle, hne⟩) ((List.mergeSort_perm ..).nodup_iff.mpr h)

end Text

namespace MonitoredNames

/-- A name is tried before another one. -/
def TriedBefore (a b : Text) : Prop :=
  (decide (b.length < a.length) || (a.length == b.length && Text.isAtMost a b)) = true

instance : DecidableRel TriedBefore := fun _ _ => inferInstanceAs (Decidable (_ = true))

theorem triedBefore_iff {a b : Text} :
    TriedBefore a b ↔ b.length < a.length ∨ a.length = b.length ∧ Text.isAtMost a b = true := by
  simp [TriedBefore]

instance : Std.Total TriedBefore where
  total a b := by
    have := Text.isAtMost_total a b
    simp only [triedBefore_iff, Bool.or_eq_true] at this ⊢
    rcases Nat.lt_trichotomy a.length b.length with h | h | h <;> tauto

instance : IsTrans Text TriedBefore where
  trans a b c := by
    simp only [triedBefore_iff]
    rintro (h | ⟨h, hle⟩) (h' | ⟨h', hle'⟩)
    · exact .inl (by omega)
    · exact .inl (by omega)
    · exact .inl (by omega)
    · exact .inr ⟨h.trans h', Text.isAtMost_trans hle hle'⟩

instance : Std.Antisymm TriedBefore where
  antisymm a b := by
    simp only [triedBefore_iff]
    rintro (h | ⟨h, hle⟩) (h' | ⟨h', hle'⟩)
    · omega
    · omega
    · omega
    · exact Text.isAtMost_antisymm hle hle'

theorem longestFirst_eq (names : List Text) :
    longestFirst names = names.insertionSort TriedBefore := by
  rw [← List.mergeSort_eq_insertionSort, longestFirst]
  congr 1
  funext a b
  exact Bool.decide_eq_true.symm

end MonitoredNames
end SourceStamp
