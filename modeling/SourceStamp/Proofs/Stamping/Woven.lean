import SourceStamp.Proofs.Call.StampText
import SourceStamp.Proofs.Edit.Seam
import SourceStamp.Proofs.Stamping.Plan

/-!
# What a stamped text consists of

A stamped text is woven from the source text and the texts of its edits.

- `stamp_text_eq`, `stamp_inOrder`: the stamped text and its edits.
- `exists_call_of_mem_edits`: each edit stamps a call.
- `mem_of_mem_stamp_text`: where a control character of the stamped text comes from.
-/

namespace SourceStamp

open MonitoredCall (findAll)

namespace Edit

theorem mem_of_mem_slice {t : Text} {start stop : Int} {c : Char} (h : c ∈ slice t start stop) :
    c ∈ t :=
  List.mem_of_mem_drop (List.mem_of_mem_take h)

theorem mem_weave {source : Text} {cursor : Int} {es : List Edit} {c : Char}
    (h : c ∈ weave source cursor es) : c ∈ source ∨ ∃ e ∈ es, c ∈ e.insertText := by
  induction es generalizing cursor with
  | nil => exact .inl (mem_of_mem_slice h)
  | cons e es ih =>
    rcases List.mem_append.mp h with h | h
    · exact .inl (mem_of_mem_slice h)
    · rcases List.mem_append.mp h with h | h
      · exact .inr ⟨e, List.mem_cons_self, h⟩
      · rcases ih h with h | ⟨e', he', h⟩
        · exact .inl h
        · exact .inr ⟨e', List.mem_cons_of_mem e he', h⟩

end Edit

variable (names : MonitoredNames) (source : Text) (path : Option Text)

/-- The applied edits are those of the plan that a pass keeps. -/
theorem stamp_edits_eq_kept : (stamp names source path).edits =
    if isSkipped names source then [] else
      Edit.kept source 0 (Edit.ordered (plan names source path)) := by
  unfold stamp
  split
  · rfl
  · rw [Edit.applyAll_eq]

/-- The text is woven from the applied edits. -/
theorem stamp_text_eq : (stamp names source path).text =
    Edit.weave source 0 (stamp names source path).edits := by
  unfold stamp
  split
  · exact (Edit.weave_nil_eq source).symm
  · rw [Edit.applyAll_eq]

theorem stamp_inOrder : Edit.InOrder source 0 (stamp names source path).edits := by
  rw [stamp_edits_eq_kept]
  split
  · trivial
  · exact Edit.kept_inOrder ..

variable {names source path}

theorem mem_plan_of_mem_edits {e : Edit} (h : e ∈ (stamp names source path).edits) :
    e ∈ plan names source path := by
  rw [stamp_edits_eq_kept] at h
  split at h
  · cases h
  · exact (Edit.ordered_perm _).subset ((Edit.kept_sublist ..).subset h)

/-- Each applied edit stamps a call. -/
theorem exists_call_of_mem_edits {e : Edit} (h : e ∈ (stamp names source path).edits) :
    ∃ call ∈ findAll source names, call.edit? source path = some e := by
  have hplan := mem_plan_of_mem_edits h
  rw [plan_eq] at hplan
  exact List.mem_filterMap.mp hplan

/-- The text of each edit names the path and the line of a call. -/
theorem inserted_of_mem_edits {e : Edit} (h : e ∈ (stamp names source path).edits) :
    ∃ line, Stamp.Inserted (stampedPath path) line e.insertText := by
  obtain ⟨call, -, hedit⟩ := exists_call_of_mem_edits h
  exact ⟨_, Stamp.inserted hedit⟩

/-- A control character of a stamped text comes from the source text. -/
theorem mem_of_mem_stamp_text {c : Char} (hc : c.toNat < 32)
    (h : c ∈ (stamp names source path).text) : c ∈ source := by
  rw [stamp_text_eq] at h
  rcases Edit.mem_weave h with h | ⟨e, he, h⟩
  · exact h
  · obtain ⟨line, hinserted⟩ := inserted_of_mem_edits he
    exact absurd h (hinserted.not_mem hc)

/-- A text that is not changed stays as it is. -/
theorem stamp_text_of_not_changed (h : (stamp names source path).changed = false) :
    (stamp names source path).text = source := by
  have hedits : (stamp names source path).edits = [] := by
    simpa [Stamping.changed] using h
  rw [stamp_text_eq, hedits, Edit.weave_nil_eq]

end SourceStamp
