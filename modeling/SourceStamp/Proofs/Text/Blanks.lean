import SourceStamp.Proofs.Text.Lines
import SourceStamp.Text.Digit

/-!
# Blanks

- `of_isBlank`: there are few blanks, so that a fact about all of them can be checked.
- `Text.isDigitLike_of_isBlank`: no blank is a digit.
- `Text.strip_surrounded`: stripping takes away blanks that were put around a text.
- `Text.exists_eq_trim`, `Text.exists_eq_strip`: a text is its stripped form with blanks around it.
-/

namespace SourceStamp

open Text (isBlank)

/-- The code points of the blanks. -/
def blankCodes : List Nat :=
  List.range' 9 5 ++ List.range' 28 5 ++ [0x85, 0xA0, 0x1680] ++ List.range' 0x2000 11 ++
    [0x2028, 0x2029, 0x202F, 0x205F, 0x3000]

/-- What is to hold of all blanks can be checked one by one. -/
theorem of_isBlank {P : Char → Prop} (hcodes : ∀ n ∈ blankCodes, P (Char.ofNat n)) {c : Char}
    (h : isBlank c = true) : P c := by
  rw [← Char.ofNat_toNat c]
  refine hcodes c.toNat ?_
  simp only [isBlank, Bool.or_eq_true, Bool.and_eq_true, decide_eq_true_eq, beq_iff_eq] at h
  simp only [blankCodes, List.mem_append, List.mem_range'_1, List.mem_cons, List.not_mem_nil,
    or_false]
  omega

namespace Text

theorem isDigitLike_of_isBlank {c : Char} (h : isBlank c = true) : isDigitLike c = false := by
  have hcodes : ∀ n ∈ blankCodes, isDigitLike (Char.ofNat n) = false := by decide +kernel
  exact of_isBlank (P := fun c => isDigitLike c = false) hcodes h

theorem isBlank_of_isDigitLike {c : Char} (h : isDigitLike c = true) : isBlank c = false := by
  rw [Bool.eq_false_iff]
  intro hblank
  rw [isDigitLike_of_isBlank hblank] at h
  cases h

theorem isDigitLike_of_isDecimal {c : Char} (h : isDecimal c = true) : isDigitLike c = true := by
  rw [isDigitLike, h, Bool.true_or]

/-! ## Blanks around a text -/

variable {before t after : Text}

theorem stripStart_append_left (h : ∀ c ∈ before, isBlank c = true) :
    stripStart (before ++ t) = stripStart t :=
  List.dropWhile_append_of_pos h

theorem stripStart_append (h : stripStart t ≠ []) :
    stripStart (t ++ after) = stripStart t ++ after := by
  rw [stripStart, List.dropWhile_append, ← stripStart, if_neg (by rwa [List.isEmpty_iff])]

theorem stripStart_eq_nil_iff : stripStart t = [] ↔ ∀ c ∈ t, isBlank c = true :=
  List.dropWhile_eq_nil_iff

theorem dropEndWhile_append {p : Char → Bool} (h : ∀ c ∈ after, p c = true) :
    dropEndWhile p (t ++ after) = dropEndWhile p t := by
  have hreverse : ∀ c ∈ after.reverse, p c = true := fun c hc => h c (List.mem_reverse.mp hc)
  rw [dropEndWhile, List.reverse_append, List.dropWhile_append_of_pos hreverse, dropEndWhile]

theorem strip_surrounded (hbefore : ∀ c ∈ before, isBlank c = true)
    (hafter : ∀ c ∈ after, isBlank c = true) : strip (before ++ t ++ after) = strip t := by
  rw [strip, List.append_assoc, stripStart_append_left hbefore, strip]
  by_cases hnil : stripStart t = []
  · -- nothing but blanks is left
    have hall : ∀ c ∈ t ++ after, isBlank c = true :=
      List.forall_mem_append.mpr ⟨stripStart_eq_nil_iff.mp hnil, hafter⟩
    rw [hnil, stripStart_eq_nil_iff.mpr hall]
  · rw [stripStart_append hnil, dropEndWhile_append hafter]

/-- A text with what was taken away from its two ends. -/
theorem exists_eq_trim (p : Char → Bool) (t : Text) :
    ∃ before after, t = before ++ dropEndWhile p (t.dropWhile p) ++ after ∧
      (∀ c ∈ before, p c = true) ∧ ∀ c ∈ after, p c = true := by
  refine ⟨t.takeWhile p, (t.dropWhile p).rtakeWhile p, ?_, fun c hc => List.mem_takeWhile_imp hc,
    fun c hc => List.mem_rtakeWhile_imp hc⟩
  have hend : dropEndWhile p (t.dropWhile p) ++ (t.dropWhile p).rtakeWhile p = t.dropWhile p :=
    List.rdropWhile_append_rtakeWhile
  rw [List.append_assoc, hend, List.takeWhile_append_dropWhile]

theorem exists_eq_strip (t : Text) :
    ∃ before after, t = before ++ strip t ++ after ∧ (∀ c ∈ before, isBlank c = true) ∧
      ∀ c ∈ after, isBlank c = true :=
  exists_eq_trim isBlank t

/-- What is not to be taken away anywhere is left when its surroundings are. -/
theorem trim_surrounded {p : Char → Bool} (hbefore : ∀ c ∈ before, p c = true)
    (ht : ∀ c ∈ t, p c = false) (hafter : ∀ c ∈ after, p c = true) :
    dropEndWhile p ((before ++ t ++ after).dropWhile p) = t := by
  rw [List.append_assoc, List.dropWhile_append_of_pos hbefore]
  cases t with
  | nil =>
    rw [List.nil_append, List.dropWhile_eq_nil_iff.mpr hafter]
    rfl
  | cons c t =>
    have hc : ¬ p c = true := Bool.eq_false_iff.mp (ht c List.mem_cons_self)
    rw [List.cons_append, List.dropWhile_cons_of_neg hc, ← List.cons_append,
      dropEndWhile_append hafter]
    exact dropEndWhile_eq_self_iff.mpr fun hne => ht _ (List.getLast_mem hne)

end Text
end SourceStamp
