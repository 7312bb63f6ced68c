import Mathlib.Data.List.Nodup
import SourceStamp.Proofs.Edit.Pass

/-!
# Edits made one at a time

A pass makes all edits from left to right, with a cursor for what is dealt with. It does what one
would do by hand with the edits in order: hold each against those that are made already, and then
make them in the text one at a time, from the last to the first, so that none moves the place of
another.

- `Edit.StablySorted`: what the order of the edits is to be; `Edit.ordered_stablySorted`.
- `Edit.Barred`, `Edit.sift`: which edits are left, and `Edit.sift_eq_kept`: one cursor stands for
  all edits made already.
- `Edit.splice`, `Edit.spliceAll`: edits made in a text, and `Edit.spliceAll_eq_weave`: up to the
  cursor the text is the source text still.
- `Edit.applyAll_splices`: the theorem.
-/

namespace SourceStamp
namespace Edit

/-! ## The order -/

/-- The same edits in ascending order of position, those of one position in the order in which they
were. -/
structure StablySorted (edits sorted : List Edit) : Prop where
  perm : sorted.Perm edits
  ascending : sorted.Pairwise fun e e' => e.position ≤ e'.position
  stable : ∀ p : Int, (sorted.filter fun e => e.position = p) = edits.filter fun e => e.position = p

/-- Edits of one position are in order already, and a sort leaves such a part as it is. -/
theorem ordered_filter (edits : List Edit) (p : Int) :
    ((ordered edits).filter fun e => e.position = p) = edits.filter fun e => e.position = p := by
  let here := edits.filter fun e => e.position = p
  have hposition : ∀ e ∈ here, e.position = p := fun e he =>
    of_decide_eq_true (List.mem_filter.mp he).2
  have hsorted : here.Pairwise fun a b => decide (a.position ≤ b.position) = true := by
    refine List.pairwise_of_forall_mem_list fun a ha b hb => decide_eq_true ?_
    exact Int.le_of_eq ((hposition a ha).trans (hposition b hb).symm)
  have hsub : here.Sublist (ordered edits) :=
    List.sublist_mergeSort
      (fun a b c hab hbc => by simp only [decide_eq_true_eq] at *; omega)
      (fun a b => by simp only [Bool.or_eq_true, decide_eq_true_eq]; omega)
      hsorted List.filter_sublist
  have hsub' := hsub.filter fun e => decide (e.position = p)
  simp only [here, List.filter_filter, Bool.and_self] at hsub'
  exact (hsub'.eq_of_length ((ordered_perm edits).filter _).length_eq.symm).symm

theorem ordered_stablySorted (edits : List Edit) : StablySorted edits (ordered edits) :=
  ⟨ordered_perm edits, ordered_pairwise edits, ordered_filter edits⟩

/-- Edits of distinct positions have one order only. -/
theorem ordered_eq_of_perm {edits edits' : List Edit} (h : edits'.Perm edits)
    (hdistinct : edits.Pairwise fun e e' => e.position ≠ e'.position) :
    ordered edits' = ordered edits := by
  refine List.Perm.eq_of_pairwise ?_ (ordered_pairwise edits') (ordered_pairwise edits)
    ((ordered_perm edits').trans (h.trans (ordered_perm edits).symm))
  intro e e' he he' hle hge
  have hmem : e ∈ edits := h.mem_iff.mp ((ordered_perm edits').mem_iff.mp he)
  have hmem' : e' ∈ edits := (ordered_perm edits).mem_iff.mp he'
  exact List.inj_on_of_nodup_map (List.pairwise_map.mpr hdistinct) hmem hmem'
    (Int.le_antisymm hle hge)

/-! ## Which edits are left -/

/-- Other edits keep an edit from being made: it ends past the text, or starts among the characters
that one of them deletes. -/
def Barred (source : Text) (made : List Edit) (e : Edit) : Prop :=
  (source.length : Int) < e.stop ∨ ∃ m ∈ made, m.position ≤ e.position ∧ e.position < m.stop

instance (source : Text) (made : List Edit) (e : Edit) : Decidable (Barred source made e) :=
  inferInstanceAs (Decidable (_ ∨ _))

/-- The edits that are left after some are made, when each is held against all those before it. -/
def sift (source : Text) (made : List Edit) : List Edit → List Edit
  | [] => []
  | e :: es =>
    if Barred source made e then sift source made es else e :: sift source (e :: made) es

/-- **One cursor is enough**: among edits in ascending order, those that start before the cursor are
those that start among deleted characters. -/
theorem sift_eq_kept {source : Text} {made es : List Edit} {cursor : Int}
    (hsorted : es.Pairwise fun e e' => e.position ≤ e'.position)
    (hmade : ∀ m ∈ made, ∀ e ∈ es, m.position ≤ e.position)
    (hcursor : ∀ e ∈ es, e.position < cursor ↔ ∃ m ∈ made, e.position < m.stop) :
    sift source made es = kept source cursor es := by
  induction es generalizing made cursor with
  | nil => rfl
  | cons e es ih =>
    obtain ⟨hfirst, hsorted'⟩ := List.pairwise_cons.mp hsorted
    have hmade' : ∀ m ∈ made, ∀ e' ∈ es, m.position ≤ e'.position := fun m hm e' he' =>
      hmade m hm e' (List.mem_cons_of_mem e he')
    have hcursor' := fun e' he' => hcursor e' (List.mem_cons_of_mem e he')
    have hhere := hcursor e List.mem_cons_self
    -- those that were made start no later, so only their ends matter
    have hbarred : Barred source made e ↔
        e.position < cursor ∨ (source.length : Int) < e.stop := by
      rw [Barred, hhere, or_comm]
      refine or_congr_left (exists_congr fun m => and_congr_right fun hm => ?_)
      exact and_iff_right (hmade m hm e List.mem_cons_self)
    rw [sift, kept]
    by_cases hdrop : e.position < cursor ∨ (source.length : Int) < e.stop
    · rw [if_pos hdrop, if_pos (hbarred.mpr hdrop)]
      exact ih hsorted' hmade' hcursor'
    · rw [if_neg hdrop, if_neg (mt hbarred.mp hdrop)]
      refine congrArg (e :: ·) (ih hsorted' ?_ ?_)
      · exact List.forall_mem_cons.mpr ⟨hfirst, hmade'⟩
      · -- the edit ends after all those before it
        intro e' he'
        simp only [List.mem_cons, exists_eq_or_imp]
        refine ⟨.inl, ?_⟩
        rintro (hlt | ⟨m, hm, hlt⟩)
        · exact hlt
        · have hle := hfirst e' he'
          exact absurd (hhere.mpr ⟨m, hm, by omega⟩) fun h => hdrop (.inl h)

/-! ## The text -/

/-- The text with an edit made in it. -/
def splice (e : Edit) (t : Text) : Text :=
  t.take e.position.toNat ++ (e.insertText ++ t.drop e.stop.toNat)

/-- The text with edits made in it one at a time, from the last to the first. -/
def spliceAll (es : List Edit) (t : Text) : Text := es.foldr splice t

/-- After the edits from a cursor on, the text is the source text up to the cursor, and from there
what a pass makes of it. -/
theorem spliceAll_eq_weave {source : Text} {es : List Edit} (hfits : ∀ e ∈ es, Fits source e)
    {cursor : Nat} (hcursor : cursor ≤ source.length) (horder : InOrder source cursor es) :
    spliceAll es source = source.take cursor ++ weave source cursor es := by
  induction es generalizing cursor with
  | nil => rw [weave_nil_eq_drop hcursor, List.take_append_drop]; rfl
  | cons e es ih =>
    obtain ⟨he, hes⟩ := List.forall_mem_cons.mp hfits
    obtain ⟨hstart, hstop, hrest⟩ := horder
    obtain ⟨a, ha⟩ := Int.eq_ofNat_of_zero_le he.position_nonneg
    obtain ⟨b, hb⟩ := Int.eq_ofNat_of_zero_le (Int.le_trans he.position_nonneg he.position_le)
    have hab := he.position_le
    rw [ha] at hstart
    rw [hb] at hstop hrest
    rw [ha, hb] at hab
    rw [Int.ofNat_le] at hstart hstop hab
    have htake : (source.take b ++ weave source b es).take a = source.take a := by
      rw [List.take_append_of_le_length (by rw [List.length_take]; omega), List.take_take,
        Nat.min_eq_left hab]
    have hdrop : (source.take b ++ weave source b es).drop b = weave source b es :=
      List.drop_left' (by rw [List.length_take, Nat.min_eq_left hstop])
    calc spliceAll (e :: es) source
        = splice e (source.take b ++ weave source b es) := by
          rw [← ih hes hstop hrest]
          rfl
      _ = source.take a ++ (e.insertText ++ weave source b es) := by
          rw [splice, ha, hb, Int.toNat_natCast, Int.toNat_natCast, htake, hdrop]
      _ = source.take cursor ++ weave source cursor (e :: es) := by
          rw [weave_cons ha hb hstart (Nat.le_trans hab hstop),
            ← List.append_assoc (source.take cursor), ← List.take_add,
            Nat.add_sub_cancel' hstart]

/-- Edits in order stay within the text, if they delete no less than nothing. -/
theorem fits_of_inOrder {source : Text} {es : List Edit} {cursor : Int} (h0 : 0 ≤ cursor)
    (hlength : ∀ e ∈ es, 0 ≤ e.deleteLength) (horder : InOrder source cursor es) :
    ∀ e ∈ es, Fits source e := by
  induction es generalizing cursor with
  | nil => exact fun e he => absurd he List.not_mem_nil
  | cons e es ih =>
    obtain ⟨he, hes⟩ := List.forall_mem_cons.mp hlength
    obtain ⟨hstart, hstop, hrest⟩ := horder
    have hle : e.position ≤ e.stop := by
      rw [stop]
      omega
    have hfits : Fits source e := ⟨Int.le_trans h0 hstart, hle, hstop⟩
    exact List.forall_mem_cons.mpr
      ⟨hfits, ih (Int.le_trans hfits.position_nonneg hle) hes hrest⟩

/-- **A pass splices**: of edits with places and lengths that are not negative, in whatever order
they come,

- those are applied that are left of the stably sorted edits when each is held against the ones
  applied before it: an edit that ends past the text, or starts among their deleted characters, is
  dropped;
- the text is the source text with the applied edits made one at a time, from the last to the first;
- where all positions are distinct, the order in which the edits come plays no part. -/
theorem applyAll_splices {source : Text} {edits : List Edit}
    (hedits : ∀ e ∈ edits, 0 ≤ e.position ∧ 0 ≤ e.deleteLength) :
    StablySorted edits (ordered edits) ∧
    (applyAll source edits).applied = sift source [] (ordered edits) ∧
    (applyAll source edits).text = spliceAll (applyAll source edits).applied source ∧
    ((edits.Pairwise fun e e' => e.position ≠ e'.position) →
      ∀ edits', edits'.Perm edits → applyAll source edits' = applyAll source edits) := by
  have hedits' : ∀ e ∈ ordered edits, 0 ≤ e.position ∧ 0 ≤ e.deleteLength := fun e he =>
    hedits e ((ordered_perm edits).mem_iff.mp he)
  refine ⟨ordered_stablySorted edits, ?_, ?_, ?_⟩
  · rw [applyAll_eq]
    refine (sift_eq_kept (ordered_pairwise edits) (by simp) fun e he => ?_).symm
    have := (hedits' e he).1
    simp only [List.not_mem_nil, false_and, exists_false, iff_false]
    omega
  · rw [applyAll_eq]
    have horder := kept_inOrder source 0 (ordered edits)
    have hlength : ∀ e ∈ kept source 0 (ordered edits), 0 ≤ e.deleteLength := fun e he =>
      (hedits' e ((kept_sublist source 0 _).subset he)).2
    have hfits := fits_of_inOrder (Int.le_refl 0) hlength horder
    exact (@spliceAll_eq_weave source _ hfits 0 (Nat.zero_le _) horder).symm
  · intro hdistinct edits' hperm
    rw [applyAll_eq, applyAll_eq, ordered_eq_of_perm hperm hdistinct]

/-- Edits of which two start at one place, two in deleted characters, and one ends past a text of
six characters. -/
def overlapping : List Edit :=
  [⟨5, 9, ['x']⟩, ⟨1, 3, ['y']⟩, ⟨4, 0, ['z']⟩, ⟨2, 1, ['v']⟩, ⟨1, 0, ['w']⟩]

theorem applyAll_splices_overlapping :
    ((applyAll "abcdef".toList overlapping).applied = [⟨1, 3, ['y']⟩, ⟨4, 0, ['z']⟩] ∧
      (applyAll "abcdef".toList overlapping).text = "ayzef".toList) ∧
      applyAll "abcdef".toList [⟨4, 0, ['z']⟩, ⟨1, 3, ['y']⟩] =
        applyAll "abcdef".toList [⟨1, 3, ['y']⟩, ⟨4, 0, ['z']⟩] := by
  obtain ⟨-, happlied, htext, -⟩ := @applyAll_splices "abcdef".toList overlapping (by decide)
  have hordered : ordered overlapping =
      [⟨1, 3, ['y']⟩, ⟨1, 0, ['w']⟩, ⟨2, 1, ['v']⟩, ⟨4, 0, ['z']⟩, ⟨5, 9, ['x']⟩] := by
    simp [ordered, overlapping, List.mergeSort]
  rw [hordered] at happlied
  have hleft : (applyAll "abcdef".toList overlapping).applied = [⟨1, 3, ['y']⟩, ⟨4, 0, ['z']⟩] :=
    happlied.trans (by decide)
  rw [hleft] at htext
  refine ⟨⟨hleft, htext⟩, ?_⟩
  have hapart := @applyAll_splices "abcdef".toList [⟨1, 3, ['y']⟩, ⟨4, 0, ['z']⟩] (by decide)
  exact hapart.2.2.2 (by decide) _ (List.Perm.swap _ _ _)

end Edit
end SourceStamp
