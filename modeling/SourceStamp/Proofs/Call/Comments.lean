import SourceStamp.Proofs.Call.SameOutside

/-!
# What comments say about calls

Calls are searched for in the text alone, and the lexical state is asked for at their names only. So
comments have a say in where calls are found, in three ways:

- a comment of one line that ends in the keyword of a declaration hides the call after it;
- type arguments can begin in a comment, or go on over one, and take in what is a call;
- angle brackets in comments count when the end of type arguments is searched.

`CommentsSilent` says that none of this happens, and `findAll_blankComments_iff` that this is exactly
when blank comments make no difference. `PlainComments` is a simple condition that rules it out.
-/

namespace SourceStamp

open MonitoredCall (findAll)

/-- The comments of a source text have no say in where its calls are. The calls are compared with
those that are found when the comments are blank. -/
structure CommentsSilent (names : MonitoredNames) (source : Text) : Prop where
  /-- No call is taken for a declaration because of a comment. -/
  not_declared : ∀ call ∈ findAll (blankComments source) names,
    endsInDeclaration (source.take call.start).reverse = false
  /-- No occurrence covers a call because of a comment. -/
  not_covered : ∀ call ∈ findAll (blankComments source) names,
    ¬ Covered (occurrences names source) call.start
  /-- None covers a call but for a comment. -/
  not_covered_blank : ∀ call ∈ findAll source names,
    ¬ Covered (occurrences names (blankComments source)) call.start
  /-- Every call ends at the same parenthesis. -/
  callAt_eq : ∀ call, call ∈ findAll source names ∨ call ∈ findAll (blankComments source) names →
    callAt names.callees (blankComments source) call.start =
      callAt names.callees source call.start

/-- No comment holds an angle bracket or the keyword of a declaration. -/
structure PlainComments (source : Text) : Prop where
  no_angle : ∀ i c, isCommentText source i = true → source[i]? = some c → c ≠ '<' ∧ c ≠ '>'
  no_keyword : ∀ i, isCommentText source i = true → ¬ declarationKeyword <+: source.drop i

section Calls

variable {names : MonitoredNames} {source : Text} {call : MonitoredCall}

/-- Silent comments make no difference. -/
theorem CommentsSilent.findAll_eq (h : CommentsSilent names source) :
    findAll (blankComments source) names = findAll source names := by
  refine calls_eq_of_mem_iff (MonitoredCall.findAll_pairwise _ _)
    (MonitoredCall.findAll_pairwise _ _) fun call => ⟨?_, ?_⟩
  · intro hcall
    obtain ⟨hat, -, hcode, -⟩ := mem_findAll_iff.mp hcall
    refine mem_findAll_iff.mpr ⟨(h.callAt_eq call (.inr hcall)).symm.trans hat,
      h.not_covered call hcall, ?_, h.not_declared call hcall⟩
    rw [← classify_blankComments]
    exact hcode
  · intro hcall
    obtain ⟨hat, -, hcode, hdeclared⟩ := mem_findAll_iff.mp hcall
    refine mem_findAll_iff.mpr ⟨(h.callAt_eq call (.inl hcall)).trans hat,
      h.not_covered_blank call hcall, ?_, ?_⟩
    · rw [classify_blankComments]
      exact hcode
    · -- blank comments cannot make a declaration
      refine Bool.eq_false_iff.mpr ?_
      intro hblank
      have := endsInDeclaration_of_blankComments (MonitoredCall.start_inCode hcall) (start_le hcall)
        hblank
      rw [hdeclared] at this
      cases this

/-- Where comments make no difference they are silent. -/
theorem CommentsSilent.of_findAll_eq
    (h : findAll (blankComments source) names = findAll source names) :
    CommentsSilent names source where
  not_declared call hcall := (mem_findAll_iff.mp (h ▸ hcall)).2.2.2
  not_covered call hcall := (mem_findAll_iff.mp (h ▸ hcall)).2.1
  not_covered_blank call hcall := (mem_findAll_iff.mp (h.symm ▸ hcall)).2.1
  callAt_eq call hcall := by
    have hcall : call ∈ findAll source names := hcall.elim id fun hcall => h ▸ hcall
    rw [(mem_findAll_iff.mp hcall).1]
    exact (mem_findAll_iff.mp (h.symm ▸ hcall)).1

/-! ## Plain comments -/

theorem angle_of_ne {c : Char} (h : c ≠ '<' ∧ c ≠ '>') : angle c = ' ' := by
  rw [angle, if_neg (not_or.mpr h)]

/-- With plain comments a source text and its blanked form are the same outside comments. -/
theorem PlainComments.sameOutside (h : PlainComments source) :
    SameOutside source (blankComments source) := by
  refine ⟨fun i => (agree_blankComments source i).symm,
    fun i hi => (getElem?_blankComments_of_not hi).symm, ?_,
    fun i c hi hc => angle_of_ne (h.no_angle i c hi hc)⟩
  refine List.ext_getElem? ?_
  intro i
  rw [List.getElem?_map, List.getElem?_map]
  cases htext : isCommentText source i with
  | false => rw [getElem?_blankComments_of_not htext]
  | true =>
    rw [getElem?_blankComments_of_isCommentText htext]
    cases hget : source[i]? with
    | none => rfl
    | some c =>
      have hangle := angle_of_ne (h.no_angle i c htext hget)
      by_cases hfeed : c = '\n'
      · simp [hfeed]
      · simp only [Option.map_some, if_neg hfeed, hangle]
        rfl

/-- Plain comments are silent. -/
theorem PlainComments.silent (h : PlainComments source) (names : MonitoredNames) :
    CommentsSilent names source := by
  have hsame := h.sameOutside
  have hcode : ∀ {p : Nat}, classify source p = .code →
      (readingAt source p).state.inComment = false := fun hp => by rw [← classify_eq, hp]; rfl
  have hcode' : ∀ {p : Nat}, classify (blankComments source) p = .code →
      (readingAt source p).state.inComment = false := fun hp => by
    rw [classify_blankComments] at hp
    exact hcode hp
  have hlen : ∀ {call}, call ∈ findAll (blankComments source) names → call.start ≤ source.length :=
    fun hcall => length_blankComments source ▸ start_le hcall
  refine ⟨?_, ?_, ?_, ?_⟩
  · -- no keyword in a comment makes a declaration of a call
    intro call hcall
    obtain ⟨-, -, -, hdeclared⟩ := mem_findAll_iff.mp hcall
    refine Bool.eq_false_iff.mpr ?_
    intro hsource
    rw [endsInDeclaration_blankComments (hlen hcall) h.no_keyword hsource] at hdeclared
    cases hdeclared
  · intro call hcall
    obtain ⟨hat, hcovered, hstate, -⟩ := mem_findAll_iff.mp hcall
    have hout := hcode' hstate
    have heq := hsame.callAt_eq hout (hlen hcall) (slash_not_mem_callees names)
    exact (hsame.not_covered_iff (hlen hcall) (by rw [heq, hat]; rfl) hout).mpr hcovered
  · intro call hcall
    obtain ⟨hat, hcovered, hstate, -⟩ := mem_findAll_iff.mp hcall
    exact (hsame.not_covered_iff (start_le hcall) (by rw [hat]; rfl) (hcode hstate)).mp hcovered
  · intro call hcall
    refine (hsame.callAt_eq ?_ ?_ (slash_not_mem_callees names)).symm
    · rcases hcall with hcall | hcall
      · exact hcode (mem_findAll_iff.mp hcall).2.2.1
      · exact hcode' (mem_findAll_iff.mp hcall).2.2.1
    · exact hcall.elim start_le hlen

end Calls

/-- **Comments and calls**: the calls of a source text are those that are found when its comments are
blank exactly when the comments are silent, and plain comments are. -/
theorem findAll_blankComments_iff (names : MonitoredNames) (source : Text) :
    (findAll (blankComments source) names = findAll source names ↔ CommentsSilent names source) ∧
      (PlainComments source → CommentsSilent names source) :=
  ⟨⟨CommentsSilent.of_findAll_eq, CommentsSilent.findAll_eq⟩, fun h => h.silent names⟩

/-- A keyword at the end of a comment hides the call after it. -/
theorem not_commentsSilent_of_keyword : ¬ CommentsSilent .soleHook "// function\nuse()".toList := by
  intro h
  have heq := (findAll_blankComments_iff _ _).1.mpr h
  revert heq
  simp only [MonitoredCall.findAll_eq, Occurrence.isCall, classify_eq]
  decide +kernel

end SourceStamp
