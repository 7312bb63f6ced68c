import SourceStamp.Proofs.Call.Place

/-!
# When a call is found

The search takes calls from left to right, so whether one is found depends on the text at its place
and on what was found before it.

- `callAt`: the call that a text shows at an offset.
- `covered_iff`: which offsets an occurrence reaches over, told by the offsets before.
- `mem_findAll_iff`: a call is found where the text shows it, if it starts in code, is not covered
  and not declared.
-/

namespace SourceStamp

open Text (isBlank isBoundary)
open MonitoredCall (findAll)

/-- Blanks and a parenthesis are found again. -/
theorem afterParen_append {blanks after : Text} (h : ∀ c ∈ blanks, isBlank c = true) :
    afterParen (blanks ++ '(' :: after) = some after := by
  rw [afterParen, List.dropWhile_append_of_pos h, List.dropWhile_cons_of_neg (by decide)]
  exact if_pos rfl

/-- The call that a text shows at an offset, wherever that is. -/
def callAt (callees : List (Text × CalleeKind)) (t : Text) (p : Nat) : Option MonitoredCall :=
  (occurrenceAt callees t p).map (·.toMonitoredCall)

/-- What the search for callees asks of one of them. -/
def tryCallee (t : Text) (callee : Text × CalleeKind) : Option (Text × CalleeKind × Text) :=
  if callee.1.isPrefixOf t then
    (afterCallOpening (t.drop callee.1.length)).map fun after => (callee.1, callee.2, after)
  else none

theorem calleeAt_eq (callees : List (Text × CalleeKind)) (t : Text) :
    calleeAt callees t = callees.findSome? (tryCallee t) := rfl

/-- What is found of a callee, up to the text after it. -/
def sizeOfFound (found : Text × CalleeKind × Text) : Text × CalleeKind × Nat :=
  (found.1, found.2.1, found.2.2.length)

theorem callAt_eq_ite (callees : List (Text × CalleeKind)) (t : Text) (p : Nat) :
    callAt callees t p =
      if isBoundary (t.take p).reverse.head? t[p]? then
        ((calleeAt callees (t.drop p)).map sizeOfFound).map fun found =>
          ⟨found.1, found.2.1, p, t.length - found.2.2⟩
      else none := by
  unfold callAt occurrenceAt calleeFrom
  by_cases hb : isBoundary (t.take p).reverse.head? t[p]? = true
  · simp only [if_pos hb]
    cases calleeAt callees (t.drop p) <;> rfl
  · simp only [if_neg hb]
    rfl

/-- A call starts at a word boundary. -/
theorem isBoundary_of_callAt {callees : List (Text × CalleeKind)} {t : Text} {p : Nat}
    {call : MonitoredCall} (h : callAt callees t p = some call) :
    isBoundary (t.take p).reverse.head? t[p]? = true := by
  refine Classical.byContradiction ?_
  intro hnot
  rw [callAt_eq_ite, if_neg hnot] at h
  cases h

/-- The character before an offset. -/
theorem head?_reverse_take {t : Text} {p : Nat} (hp : p < t.length) :
    (t.take (p + 1)).reverse.head? = t[p]? := by
  rw [List.head?_reverse, List.getLast?_take, if_neg (Nat.succ_ne_zero p), Nat.add_sub_cancel,
    List.getElem?_eq_getElem hp, Option.some_or]

/-- What a text shows at a place where a call starts. -/
theorem exists_of_callAt {callees : List (Text × CalleeKind)} {t : Text} {p : Nat}
    {call : MonitoredCall} (h : callAt callees t p = some call) :
    ∃ o, occurrenceAt callees t p = some o ∧ o.toMonitoredCall = call :=
  Option.map_eq_some_iff.mp h

/-- Some occurrence starts before the offset and reaches past it. -/
def Covered (found : List Occurrence) (p : Nat) : Prop := ∃ o ∈ found, o.start < p ∧ p < o.stop

variable {names : MonitoredNames} {t : Text} {call : MonitoredCall}

/-- The first character of a call. -/
theorem exists_isCalleeChar {p : Nat} {o : Occurrence}
    (h : occurrenceAt names.callees t p = some o) :
    ∃ c, t[p]? = some c ∧ isCalleeChar c = true := by
  obtain ⟨-, hmem, -, opening, after, hdrop, -, -⟩ := occurrenceAt_eq_some h
  obtain ⟨hne, hchars⟩ := names.callees_chars hmem
  obtain ⟨c, rest, hname⟩ := List.exists_cons_of_ne_nil hne
  refine ⟨c, ?_, hchars c (hname ▸ List.mem_cons_self)⟩
  rw [← List.head?_drop, hdrop, hname]
  rfl

/-- Whether an occurrence is found depends on what covers its start. -/
theorem exists_mem_occurrences_iff {p : Nat} :
    (∃ o ∈ occurrences names t, o.start = p) ↔
      (callAt names.callees t p).isSome = true ∧ ¬ Covered (occurrences names t) p := by
  have hspec := occurrences_spec names t
  constructor
  · rintro ⟨o, ho, rfl⟩
    obtain ⟨-, hat⟩ := hspec.found_at o ho
    refine ⟨by rw [callAt, hat]; rfl, ?_⟩
    rintro ⟨o', ho', hcover⟩
    exact hspec.not_covers ho ho' hcover
  · rintro ⟨hsome, hcovered⟩
    obtain ⟨call, hcall⟩ := Option.isSome_iff_exists.mp hsome
    obtain ⟨o, ho, -⟩ := exists_of_callAt hcall
    obtain hmem | hcover := hspec.complete p o (Nat.zero_le p) ho
    · exact ⟨o, hmem, (occurrenceAt_eq_some ho).1⟩
    · exact absurd hcover hcovered

/-- An offset is covered by a call that is shown before it and is not covered itself. -/
theorem covered_iff {p : Nat} :
    Covered (occurrences names t) p ↔
      ∃ q < p, ¬ Covered (occurrences names t) q ∧
        ∃ call, callAt names.callees t q = some call ∧ p < call.stop := by
  have hspec := occurrences_spec names t
  constructor
  · rintro ⟨o, ho, hlt, hstop⟩
    have hat := (hspec.found_at o ho).2
    exact ⟨o.start, hlt, (exists_mem_occurrences_iff.mp ⟨o, ho, rfl⟩).2, o.toMonitoredCall,
      by rw [callAt, hat]; rfl, hstop⟩
  · rintro ⟨q, hlt, hcovered, call, hcall, hstop⟩
    obtain ⟨o, ho, rfl⟩ := exists_mem_occurrences_iff.mpr ⟨by rw [hcall]; rfl, hcovered⟩
    rw [callAt, (hspec.found_at o ho).2] at hcall
    obtain rfl := Option.some.inj hcall
    exact ⟨o, ho, hlt, hstop⟩

/-- When a call is found. -/
theorem mem_findAll_iff :
    call ∈ findAll t names ↔ callAt names.callees t call.start = some call ∧
      ¬ Covered (occurrences names t) call.start ∧ classify t call.start = .code ∧
        endsInDeclaration (t.take call.start).reverse = false := by
  have hspec := occurrences_spec names t
  rw [MonitoredCall.mem_findAll]
  constructor
  · rintro ⟨o, ho, hcall, rfl⟩
    obtain ⟨-, hat⟩ := hspec.found_at o ho
    obtain ⟨hcode, hdeclared⟩ := Occurrence.isCall_iff.mp hcall
    refine ⟨by rw [callAt, hat]; rfl, ?_, hcode, ?_⟩
    · rintro ⟨o', ho', hcover⟩
      exact hspec.not_covers ho ho' hcover
    · rw [← (occurrenceAt_eq_some hat).2.2.1]
      exact hdeclared
  · rintro ⟨hcall, hcovered, hcode, hdeclared⟩
    obtain ⟨o, ho, rfl⟩ := exists_of_callAt hcall
    rcases hspec.complete _ o (Nat.zero_le _) ho with hmem | hcover
    · refine ⟨o, hmem, Occurrence.isCall_iff.mpr ⟨hcode, ?_⟩, rfl⟩
      rw [(occurrenceAt_eq_some ho).2.2.1]
      exact hdeclared
    · exact absurd hcover hcovered

theorem start_le (h : call ∈ findAll t names) : call.start ≤ t.length := by
  have := (MonitoredCall.text_at h).openParen_lt
  have := (MonitoredCall.text_at h).openParen_eq
  omega

/-- Calls that open one after the other are told by which they are. -/
theorem calls_eq_of_mem_iff {calls calls' : List MonitoredCall}
    (h : calls.Pairwise fun call call' => call.openParen < call'.openParen)
    (h' : calls'.Pairwise fun call call' => call.openParen < call'.openParen)
    (hmem : ∀ call, call ∈ calls ↔ call ∈ calls') : calls = calls' := by
  have hnodup : ∀ {l : List MonitoredCall},
      l.Pairwise (fun call call' => call.openParen < call'.openParen) → l.Nodup := fun hl =>
    hl.imp fun {call call'} hlt heq => Nat.ne_of_lt hlt (congrArg MonitoredCall.openParen heq)
  refine List.Perm.eq_of_pairwise ?_ h h'
    ((List.perm_ext_iff_of_nodup (hnodup h) (hnodup h')).mpr hmem)
  intro call call' _ _ h1 h2
  exact absurd (Nat.lt_trans h1 h2) (Nat.lt_irrefl _)

end SourceStamp
