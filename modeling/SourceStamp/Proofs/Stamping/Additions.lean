import SourceStamp.Proofs.Call.Supplant
import SourceStamp.Proofs.Stamping.Woven

/-!
# Stamping only adds

Whatever the source text, stamping it takes nothing out of it but blanks and comments, and empty
object literals of hooks, and it never leaves a text as it was by accident.

- `Edit.restored`, `Edit.weave_restored`: the edits undone.
- `finds_of_mem_edits`: every applied edit finds at its place what it supplants.
- `stamp_only_adds`: the theorem.
-/

namespace SourceStamp

open MonitoredCall (findAll)

namespace Edit

/-- The edit that puts in what is there already. -/
def restored (source : Text) (e : Edit) : Edit :=
  { e with insertText := slice source e.position e.stop }

theorem slice_append {t : Text} {a b c : Int} (ha : 0 ≤ a) (hab : a ≤ b) (hbc : b ≤ c)
    (hc : c ≤ t.length) : slice t a b ++ slice t b c = slice t a c := by
  obtain ⟨a, rfl⟩ := Int.eq_ofNat_of_zero_le ha
  obtain ⟨b, rfl⟩ := Int.eq_ofNat_of_zero_le (Int.le_trans ha hab)
  obtain ⟨c, rfl⟩ := Int.eq_ofNat_of_zero_le (Int.le_trans ha (Int.le_trans hab hbc))
  rw [Int.ofNat_le] at hab hbc hc
  rw [slice_eq hab (Nat.le_trans hbc hc), slice_eq hbc hc, slice_eq (Nat.le_trans hab hbc) hc]
  have hsum : c - a = (b - a) + (c - b) := by omega
  rw [hsum, List.take_add, List.drop_drop, Nat.add_sub_cancel' hab]

/-- The source text is woven from what is left between the edits and what they delete. -/
theorem weave_restored {source : Text} {cursor : Int} {es : List Edit} (hcursor : 0 ≤ cursor)
    (hle : cursor ≤ source.length) (horder : InOrder source cursor es)
    (hfits : ∀ e ∈ es, Fits source e) :
    weave source cursor (es.map (restored source)) = slice source cursor source.length := by
  induction es generalizing cursor with
  | nil => rfl
  | cons e es ih =>
    obtain ⟨hposition, hstop, hrest⟩ := horder
    obtain ⟨he, hes⟩ := List.forall_mem_cons.mp hfits
    have hnonneg := he.position_nonneg
    have horder := he.position_le
    show slice source cursor e.position ++ (slice source e.position e.stop ++
      weave source e.stop (es.map (restored source))) = _
    rw [ih (Int.le_trans hnonneg horder) hstop hrest hes, slice_append hnonneg horder hstop
      (Int.le_refl _), slice_append hcursor hposition (Int.le_trans horder hstop) (Int.le_refl _)]

end Edit

namespace Stamp.Finds

variable {source : Text} {kind : CalleeKind} {file : Text} {line : Int} {e : Edit}

theorem fits (h : Finds source kind file line e) : e.Fits source := by
  obtain ⟨before, deleted, after, rfl, hposition, hstop, -⟩ := h
  constructor
  · omega
  · omega
  · rw [hstop]
    simp only [List.length_append]
    omega

/-- What the edit deletes. -/
theorem slice_eq (h : Finds source kind file line e) :
    Trivia (Edit.slice source e.position e.stop) ∨ kind = .hook ∧
      ∃ inside, Trivia inside ∧
        Edit.slice source e.position e.stop = '{' :: (inside ++ ['}']) := by
  obtain ⟨before, deleted, after, rfl, hposition, hstop, hsupplants⟩ := h
  have hdeleted : Edit.slice (before ++ (deleted ++ after)) e.position e.stop = deleted := by
    rw [hposition, hstop, Edit.slice_eq (Nat.le_add_right _ _) (by simp [List.length_append]),
      List.drop_left, Nat.add_sub_cancel_left, List.take_left]
  rw [hdeleted]
  generalize e.insertText = inserted at hsupplants
  cases hsupplants with
  | nothing => exact .inl .nil
  | list _ hw => exact .inl hw
  | literal hkind hw => exact .inr ⟨hkind, _, hw, rfl⟩

/-- Only hooks delete anything. -/
theorem deleteLength_eq (h : Finds source kind file line e) (hkind : kind ≠ .hook) :
    e.deleteLength = 0 := by
  obtain ⟨before, deleted, after, rfl, hposition, hstop, hsupplants⟩ := h
  generalize e.insertText = inserted at hsupplants
  cases hsupplants with
  | nothing =>
    rw [Edit.stop, hposition] at hstop
    simp only [List.length_nil, Nat.add_zero] at hstop
    omega
  | list h => exact absurd h hkind
  | literal h => exact absurd h hkind

/-- A text into which the edit is woven first is not the source text. -/
theorem weave_ne (h : Finds source kind file line e) (es : List Edit) :
    Edit.weave source 0 (e :: es) ≠ source := by
  obtain ⟨before, deleted, after, rfl, hposition, -, hsupplants⟩ := h
  have hbefore : Edit.slice (before ++ (deleted ++ after)) 0 e.position = before := by
    rw [hposition]
    exact (Edit.slice_eq (Nat.zero_le _) (by simp [List.length_append])).trans (by simp)
  rw [Edit.weave, hbefore]
  intro heq
  exact hsupplants.ne _ (List.append_cancel_left heq)

end Stamp.Finds

variable (names : MonitoredNames) (source : Text) (path : Option Text)

variable {names source path} in
/-- Each applied edit stamps a call, and finds at its place what it supplants. -/
theorem finds_of_mem_edits {e : Edit} (h : e ∈ (stamp names source path).edits) :
    ∃ call ∈ findAll source names, call.edit? source path = some e ∧
      ∃ line, Stamp.Finds source call.kind (stampedPath path) line e := by
  obtain ⟨call, hcall, hedit⟩ := exists_call_of_mem_edits h
  exact ⟨call, hcall, hedit, _,
    Stamp.exists_finds (MonitoredCall.text_at hcall).getElem_openParen hedit⟩

theorem stamp_text_ne_iff :
    (stamp names source path).text ≠ source ↔ (stamp names source path).edits ≠ [] := by
  rw [stamp_text_eq]
  constructor
  · intro hne hnil
    rw [hnil] at hne
    exact hne (Edit.weave_nil_eq source)
  · intro hne
    obtain ⟨e, es, hedits⟩ := List.exists_cons_of_ne_nil hne
    obtain ⟨_, _, _, line, hfinds⟩ :=
      finds_of_mem_edits (hedits ▸ List.mem_cons_self : e ∈ (stamp names source path).edits)
    rw [hedits]
    exact hfinds.weave_ne es

/-- **Stamping only adds**, whatever the source text, the names and the path:

- the stamped text is woven from the applied edits, one after the other, and the source text is
  woven from the same stretches and what the edits delete;
- every edit stamps a call, and deletes blanks and comments or, for a hook, a pair of braces around
  blanks and comments; for wrappers and methods it deletes nothing;
- the text is another one exactly when it is said to be changed, which is when edits were
  applied. -/
theorem stamp_only_adds :
    (stamp names source path).text = Edit.weave source 0 (stamp names source path).edits ∧
    Edit.weave source 0 ((stamp names source path).edits.map (Edit.restored source)) = source ∧
    Edit.InOrder source 0 (stamp names source path).edits ∧
    (∀ e ∈ (stamp names source path).edits, ∃ call ∈ findAll source names,
      call.edit? source path = some e ∧ (call.kind ≠ .hook → e.deleteLength = 0) ∧
      (Trivia (Edit.slice source e.position e.stop) ∨ call.kind = .hook ∧
        ∃ inside, Trivia inside ∧
          Edit.slice source e.position e.stop = '{' :: (inside ++ ['}']))) ∧
    ((stamp names source path).changed = true ↔ (stamp names source path).text ≠ source) ∧
    ((stamp names source path).changed = true ↔ (stamp names source path).edits ≠ []) := by
  have hchanged : (stamp names source path).changed = true ↔
      (stamp names source path).edits ≠ [] := by
    simp [Stamping.changed]
  refine ⟨stamp_text_eq names source path, ?_, stamp_inOrder names source path, ?_, ?_, hchanged⟩
  · rw [Edit.weave_restored (Int.le_refl 0) (Int.natCast_nonneg _)
      (stamp_inOrder names source path)]
    · exact Edit.weave_nil_eq source
    · intro e he
      obtain ⟨_, _, _, _, hfinds⟩ := finds_of_mem_edits he
      exact hfinds.fits
  · intro e he
    obtain ⟨call, hcall, hedit, line, hfinds⟩ := finds_of_mem_edits he
    exact ⟨call, hcall, hedit, hfinds.deleteLength_eq, hfinds.slice_eq⟩
  · rw [stamp_text_ne_iff]
    exact hchanged

end SourceStamp
