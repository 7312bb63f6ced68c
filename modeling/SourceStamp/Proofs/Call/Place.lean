import Mathlib.Data.List.Nodup
import SourceStamp.Proofs.Call.Occurrence
import SourceStamp.Proofs.Lexis.Delimiters

/-!
# Where calls stand

A call starts in code, because the search asks for the lexical state at its name. It does not ask
again at the opening parenthesis, and the type arguments in between may hold any text.

- `MonitoredCall.text_at`: the source text at a call is its name, the text of its opening, and the
  parenthesis.
- `MonitoredCall.openParen_in_code_iff`: the parenthesis is in code exactly when the text of the
  opening, read on its own, leaves no string, template or comment open.
-/

namespace SourceStamp

namespace MonitoredCall

variable {source : Text} {names : MonitoredNames} {call : MonitoredCall}

/-- The text between the name of a call and its opening parenthesis: its type arguments, if any,
and blanks. -/
def opening (source : Text) (call : MonitoredCall) : Text :=
  (source.drop (call.start + call.name.length)).take
    (call.openParen - (call.start + call.name.length))

/-- The source text at a call. -/
structure TextAt (source : Text) (call : MonitoredCall) : Prop where
  name_chars : call.name ≠ [] ∧ ∀ c ∈ call.name, isCalleeChar c = true
  drop_start : ∃ after, source.drop call.start = call.name ++ (call.opening source ++ '(' :: after)
  openParen_eq : call.openParen = call.start + call.name.length + (call.opening source).length
  stop_eq : call.stop = call.openParen + 1

theorem text_at (h : call ∈ findAll source names) : call.TextAt source := by
  obtain ⟨o, ho, -, rfl⟩ := mem_findAll.mp h
  obtain ⟨-, hat⟩ := (occurrences_spec names source).found_at o ho
  obtain ⟨-, hmem, -, opening, after, hdrop, hstop, -⟩ := occurrenceAt_eq_some hat
  have hparen : o.openParen = o.start + o.name.length + opening.length := by
    show o.stop - 1 = _
    omega
  have hopening : o.toMonitoredCall.opening source = opening := by
    rw [MonitoredCall.opening, hparen, ← List.drop_drop, hdrop, List.drop_left,
      Nat.add_sub_cancel_left, List.take_left]
  refine ⟨names.callees_chars hmem, ⟨after, ?_⟩, ?_, ?_⟩
  · rw [hopening, hdrop]
  · rw [hopening, hparen]
  · rw [hparen, hstop]

theorem TextAt.drop_openParen (h : call.TextAt source) :
    ∃ after, source.drop call.openParen = '(' :: after := by
  obtain ⟨after, hdrop⟩ := h.drop_start
  refine ⟨after, ?_⟩
  rw [h.openParen_eq, Nat.add_assoc, ← List.drop_drop, hdrop, ← List.append_assoc,
    ← List.length_append, List.drop_left]

theorem TextAt.getElem_openParen (h : call.TextAt source) : source[call.openParen]? = some '(' := by
  obtain ⟨after, hdrop⟩ := h.drop_openParen
  rw [← List.head?_drop, hdrop, List.head?_cons]

theorem TextAt.openParen_lt (h : call.TextAt source) : call.openParen < source.length :=
  (List.getElem?_eq_some_iff.mp h.getElem_openParen).1

/-- Calls stand one after the other. -/
theorem stop_le_start (source : Text) (names : MonitoredNames) :
    (findAll source names).Pairwise fun call call' => call.stop ≤ call'.start := by
  rw [findAll_eq, List.pairwise_map]
  exact (occurrences_spec names source).pairwise.filter _

/-- Calls open one after the other. -/
theorem findAll_pairwise (source : Text) (names : MonitoredNames) :
    (findAll source names).Pairwise fun call call' => call.openParen < call'.openParen := by
  refine (stop_le_start source names).imp_of_mem ?_
  intro call call' h h' hle
  have := (text_at h).stop_eq
  have := (text_at h').openParen_eq
  omega

/-- Calls are told by their opening parentheses. -/
theorem eq_of_openParen_eq {call' : MonitoredCall} (h : call ∈ findAll source names)
    (h' : call' ∈ findAll source names) (heq : call.openParen = call'.openParen) :
    call = call' := by
  have hnodup : ((findAll source names).map (·.openParen)).Nodup :=
    List.pairwise_map.mpr ((findAll_pairwise source names).imp Nat.ne_of_lt)
  exact List.inj_on_of_nodup_map hnodup h h' heq

/-- Calls start in code. -/
theorem start_inCode (h : call ∈ findAll source names) : (readingAt source call.start).InCode := by
  have htext := text_at h
  obtain ⟨o, -, hcall, rfl⟩ := mem_findAll.mp h
  obtain ⟨after, hdrop⟩ := htext.drop_start
  obtain ⟨c, rest, hname⟩ := List.exists_cons_of_ne_nil htext.name_chars.1
  have hc : isCalleeChar c = true := htext.name_chars.2 c (hname ▸ List.mem_cons_self)
  have hget : source[o.start]? = some c := by rw [← List.head?_drop, hdrop, hname]; rfl
  refine inCode_of_classify (Occurrence.isCall_iff.mp hcall).1 ?_
  rw [hget]
  rintro (h | h | h) <;> injection h with h <;> exact absurd h (ne_of_isCalleeChar hc (by decide))

/-- The name of a call is code up to its end. -/
theorem name_inCode (h : call ∈ findAll source names) :
    (readingAt source (call.start + call.name.length)).InCode := by
  obtain ⟨after, hdrop⟩ := (text_at h).drop_start
  have hplain : call.name.all isPlain = true := by
    refine List.all_eq_true.mpr ?_
    intro c hc
    exact isPlain_of_isCalleeChar ((text_at h).name_chars.2 c hc)
  exact inCode_add_of_closed (start_inCode h) hdrop (Reading.closed_of_plain hplain)

/-- **Where calls stand**: a call starts in code, and its opening parenthesis is in code exactly
when the text before it, from the name on, is read as code to its end: no string, template or
comment that the type arguments open is still open at the parenthesis. -/
theorem openParen_in_code_iff (h : call ∈ findAll source names) :
    classify source call.start = .code ∧
      (classify source call.openParen = .code ↔
        classify (call.opening source) (call.opening source).length = .code) := by
  obtain ⟨after, hdrop⟩ := (text_at h).drop_start
  have hrest :
      source.drop (call.start + call.name.length) = call.opening source ++ '(' :: after := by
    rw [← List.drop_drop, hdrop, List.drop_left]
  have hagree := agree_readingAt_add (name_inCode h) hrest (by simp [Reading.IsSecond])
    (Nat.le_refl _)
  rw [← (text_at h).openParen_eq] at hagree
  refine ⟨(classify_eq source call.start).trans (start_inCode h).state_eq, ?_⟩
  rw [classify_eq, classify_eq, hagree.state_eq]

end MonitoredCall

/-- Names of which one is monitored, a hook. -/
def MonitoredNames.soleHook : MonitoredNames :=
  ⟨⟨["use".toList], [], [], []⟩, by decide +kernel, by decide +kernel⟩

/-- A quote among the type arguments puts the parenthesis into a string. -/
theorem MonitoredCall.openParen_in_string :
    ∃ call ∈ findAll "use<'>()'".toList .soleHook,
      classify "use<'>()'".toList call.start = .code ∧
        classify "use<'>()'".toList call.openParen ≠ .code := by
  have h : ⟨"use".toList, .hook, 0, 7⟩ ∈ findAll "use<'>()'".toList .soleHook := by
    simp only [findAll_eq, Occurrence.isCall, classify_eq]
    decide +kernel
  obtain ⟨hstart, hparen⟩ := openParen_in_code_iff h
  refine ⟨_, h, hstart, ?_⟩
  intro hcode
  have hopening := hparen.mp hcode
  rw [classify_eq] at hopening
  revert hopening
  decide +kernel

end SourceStamp
