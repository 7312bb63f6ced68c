import SourceStamp.Proofs.Call.StampText
import SourceStamp.Proofs.Edit.Seam
import SourceStamp.Proofs.Stamping.Plan

/-!
# Stamping keeps the lexical structure

Stamps change nothing about the text around them: each character of the source text that is not
replaced is read in the same lexical state before and after (`stamp_keeps_states`). The edits begin
and end in code because of where they land, and their texts are inert whatever the path holds.
-/

namespace SourceStamp

open MonitoredCall (findAll)

section States

variable {names : MonitoredNames} {source : Text} (path : Option Text)

/-- No path brings a backslash into a stamp. -/
theorem backslash_not_mem_stampedPath : Text.backslash ∉ stampedPath path := by
  cases path with
  | none => exact List.not_mem_nil
  | some path => exact ModulePath.backslash_not_mem_stampName path

/-- In particular a stamp's path never ends with one. -/
theorem getLast?_stampedPath : (stampedPath path).getLast? ≠ some Text.backslash :=
  fun h => backslash_not_mem_stampedPath path (List.mem_of_getLast? h)

variable (hparen : ∀ call ∈ findAll source names, classify source call.openParen = .code)

include hparen

/-- The edits of a plan are seamless. -/
theorem plan_seamless : ∀ e ∈ plan names source path, e.Seamless source := by
  intro e he
  rw [plan_eq] at he
  obtain ⟨call, hcall, hedit⟩ := List.mem_filterMap.mp he
  obtain ⟨closed, p, q, t, hb, hlands⟩ :=
    MonitoredCall.exists_landsAt hcall (hparen call hcall) hedit
  obtain ⟨hp, hq⟩ := hlands.landing.inCode hb
  refine ⟨hlands.fits hb, ?_, ?_, ?_⟩
  · rw [hlands.position_eq]
    exact hp
  · rw [hlands.stop_eq]
    exact hq
  · exact Stamp.inert_insertText (getLast?_stampedPath path) hedit

/-- **Stamping keeps lexical states**: where the opening parentheses of all calls stand in code, each
character that no applied edit deletes is found again where the edits move it, and the lexical state
there is the one it had. -/
theorem stamp_keeps_states {i : Nat} (hi : i < source.length)
    (hkept : ∀ e ∈ (stamp names source path).edits, ¬ e.deletes i) :
    (stamp names source path).text[Edit.relocated (stamp names source path).edits i]? = source[i]? ∧
      classify (stamp names source path).text (Edit.relocated (stamp names source path).edits i) =
        classify source i := by
  unfold stamp at hkept ⊢
  split
  · -- a skipped text has no edits to move anything
    have hplace : Edit.relocated (Stamping.unchanged source).edits i = i := by
      simp [Edit.relocated, Edit.shift, Stamping.unchanged]
    rw [hplace]
    exact ⟨rfl, rfl⟩
  · next hskip =>
    rw [if_neg hskip] at hkept
    exact Edit.applyAll_keeps (plan_seamless path hparen) hi hkept

end States

/-- A comment with a quote gives way to a stamp, and the string after it is still a string. -/
theorem stamp_keeps_states_after_comment :
    classify (stamp .soleHook "use(/*'*/)+'b'".toList (some "a'b".toList)).text
        (Edit.relocated
          (stamp .soleHook "use(/*'*/)+'b'".toList (some "a'b".toList)).edits 12) =
      .string '\'' := by
  have hparen : ∀ call ∈ findAll "use(/*'*/)+'b'".toList .soleHook,
      classify "use(/*'*/)+'b'".toList call.openParen = .code := by
    simp only [MonitoredCall.findAll_eq, Occurrence.isCall, classify_eq]
    decide +kernel
  have hplan : plan .soleHook "use(/*'*/)+'b'".toList (some "a'b".toList) =
      [.replace 4 9 (Stamp.object "a'b".toList 1)] := by
    simp only [plan_eq, MonitoredCall.findAll_eq, Occurrence.isCall, classify_eq,
      MonitoredCall.edit?, ArgumentList.find, Scanner.closingParen_eq, Scanner.visits_eq,
      Stamp.editFor, ArgumentList.layout, ArgumentLayout.ofText]
    decide +kernel
  have hkept : ∀ e ∈ (stamp .soleHook "use(/*'*/)+'b'".toList
      (some "a'b".toList)).edits, ¬ e.deletes 12 := by
    rw [stamp, hplan, if_neg (by decide +kernel)]
    dsimp only
    rw [Edit.applyAll_eq, Edit.ordered, List.mergeSort_singleton]
    decide +kernel
  refine (stamp_keeps_states _ hparen (by decide +kernel) hkept).2.trans ?_
  rw [classify_eq]
  rfl

end SourceStamp
