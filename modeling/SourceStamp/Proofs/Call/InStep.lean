import Mathlib.Data.List.Forall2
import SourceStamp.Proofs.Call.Layout
import SourceStamp.Proofs.Lexis.Checkpoints

/-!
# Scans in step

Three scans meet in the arguments of a call: that of the whole source text, the one from the opening
parenthesis on that looks for its end, and the one that reads the arguments as a text of their own.

- `Visit.Mirrors`: a visit of the source text shows what a visit of a part shows, where the part
  stands.
- `Reading.visits_mirror`: readers that agree make the same visits, up to a character that completes
  no delimiter; from it `StandsAt.visits_mirror`, for a text inside the source text.
- `ArgumentList.standsAt`: the arguments of a call are such a text, whether they end or not.
- `ArgumentList.scans_in_step`: the theorem, for the three scans of a call.
-/

namespace SourceStamp

/-- A visit `w` of a source text shows what the visit `v` of a part of it shows, when the part
starts at `base`. -/
structure Visit.Mirrors (base : Nat) (v w : Visit) : Prop where
  position_eq : w.position = base + v.position
  char_eq : w.char = v.char
  state_eq : w.state = v.state

namespace Reading

theorem le_position_of_mem_visits {r : Reading} {p : Nat} {t : Text} {v : Visit}
    (h : v ∈ r.visits p t) : p ≤ v.position := by
  induction t generalizing r p with
  | nil => cases h
  | cons c t ih =>
    cases hh : r.halfway with
    | true =>
      rw [visits_of_halfway hh] at h
      exact Nat.le_of_succ_le (ih h)
    | false =>
      rw [visits_of_not_halfway hh] at h
      rcases List.mem_cons.mp h with rfl | h
      · exact Nat.le_refl p
      · exact Nat.le_of_succ_le (ih h)

/-- Readers that agree make the same visits of a text, whatever stands after it, unless that
completes a delimiter. -/
theorem visits_mirror {r r' : Reading} (h : r.Agree r') {rest : Text}
    (hrest : ¬ IsSecond rest.head?) (base p : Nat) (t : Text) :
    ∃ inside later, r.visits (base + p) (t ++ rest) = inside ++ later ∧
      List.Forall₂ (Visit.Mirrors base) (r'.visits p t) inside ∧
      ∀ w ∈ later, base + p + t.length ≤ w.position := by
  induction t generalizing r r' p with
  | nil => exact ⟨[], r.visits (base + p) rest, rfl, .nil, fun w hw => le_position_of_mem_visits hw⟩
  | cons c t ih =>
    -- at its end the text is followed by `rest` in one place, and by nothing in the other
    have hnext : r.next c (t ++ rest).head? = r'.next c t.head? := by
      rw [h.next_eq]
      cases t with
      | nil => exact next_eq_of_not_isSecond hrest (by simp [IsSecond]) r' c
      | cons d t => rfl
    obtain ⟨inside, later, hvisits, hmirror, hlater⟩ :=
      ih (Agree.refl (r'.next c t.head?)) (p + 1)
    have hlength : base + (p + 1) + t.length = base + p + (c :: t).length := by
      rw [List.length_cons]
      omega
    rw [hlength] at hlater
    rw [← hnext, ← Nat.add_assoc] at hvisits
    cases hh : r'.halfway with
    | true =>
      refine ⟨inside, later, ?_, ?_, hlater⟩
      · rw [List.cons_append, visits_of_halfway (h.halfway_eq.trans hh)]
        exact hvisits
      · rw [visits_of_halfway hh]
        exact hmirror
    | false =>
      refine ⟨⟨base + p, c, (t ++ rest).head?, r.state⟩ :: inside, later, ?_, ?_, hlater⟩
      · rw [List.cons_append, visits_of_not_halfway (h.halfway_eq.trans hh)]
        exact congrArg (List.cons _) hvisits
      · rw [visits_of_not_halfway hh]
        exact .cons ⟨rfl, rfl, h.state_eq⟩ hmirror

end Reading

namespace Scanner

/-- A scan from the start stops at every offset that no delimiter spans. -/
theorem Follows.advanceTo_position {source : Text} {s : Scanner} (h : s.Follows source)
    {offset : Nat} (hle : s.position ≤ offset) (hlength : offset ≤ source.length)
    (hwhole : (readingAt source offset).halfway = false) :
    (s.advanceTo offset).position = offset := by
  fun_induction Scanner.advanceTo offset s with
  | case1 s hcond ih =>
    obtain ⟨c, r, hr⟩ := List.exists_cons_of_ne_nil hcond.2
    refine ih h.step ?_
    have hread := h.readingAt_succ hr
    cases ht : (s.state.move s.escaped c r.head?).takesNext with
    | false =>
      rw [step_of_not_takesNext hr ht]
      exact hcond.1
    | true =>
      obtain ⟨d, r', -, hstep⟩ := step_of_takesNext hr ht
      rw [hstep]
      refine Nat.lt_of_le_of_ne hcond.1 ?_
      -- the step spans the offset in between
      rintro rfl
      rw [hread] at hwhole
      exact absurd (ht.symm.trans hwhole) Bool.noConfusion
  | case2 s hcond =>
    refine Nat.le_antisymm hle (Nat.le_of_not_lt fun hlt => hcond ⟨hlt, ?_⟩)
    rw [h.rest_eq]
    exact fun hnil => absurd (List.drop_eq_nil_iff.mp hnil) (by omega)

end Scanner

/-- The scan of a text inside the source text is a part of the scan from where it stands. -/
theorem StandsAt.visits_mirror {source t rest : Text} {base : Nat}
    (h : StandsAt source base t rest) :
    ∃ inside later, (Scanner.ofCheckpoint source ⟨base, .code⟩).visits = inside ++ later ∧
      List.Forall₂ (Visit.Mirrors base) (Scanner.start t).visits inside ∧
      ∀ w ∈ later, base + t.length ≤ w.position := by
  have hinCode : (Scanner.ofCheckpoint source ⟨base, .code⟩).reading.InCode := ⟨rfl, rfl⟩
  rw [Scanner.visits_eq, Scanner.visits_eq]
  show ∃ inside later, Reading.visits _ base (source.drop base) = _ ∧ _
  rw [h.drop_eq]
  exact Reading.visits_mirror (hinCode.agree Reading.start_inCode) h.not_isSecond base 0 t

namespace ArgumentList

/-- The arguments of a call stand in the source text, up to a closing parenthesis or to the end. -/
theorem standsAt {source : Text} {opened : Nat} (h : CodeAt source opened '(') :
    ∃ rest, StandsAt source (opened + 1) (find source opened).text rest := by
  cases hclose : closingParen 0 (Scanner.ofCheckpoint source ⟨opened + 1, .code⟩) with
  | some closed => exact ⟨_, Balanced.standsAt ⟨h, hclose⟩⟩
  | none =>
    refine ⟨[], h.inCode_succ (by decide), ?_, by simp [Reading.IsSecond]⟩
    rw [find_eq, hclose, List.append_nil]

/-- **Scans in step.** From an opening parenthesis in code on, the scan of the source text, the one
that looks for the closing parenthesis and the one that outlines the arguments make the same visits,
as far as the arguments reach; and the scan of the source text stops at each of them, in the state
in which the scan of the arguments makes it. -/
theorem scans_in_step {source : Text} {opened : Nat} (hparen : source[opened]? = some '(')
    (hcode : classify source opened = .code) :
    (∀ v ∈ (Scanner.start (find source opened).text).visits,
      ((Scanner.start source).advanceTo (opened + 1 + v.position)).position =
          opened + 1 + v.position ∧
        ((Scanner.start source).advanceTo (opened + 1 + v.position)).state = v.state) ∧
    ∃ earlier inside later,
      (Scanner.start source).visits = earlier ++ (inside ++ later) ∧
      (Scanner.ofCheckpoint source ⟨opened + 1, .code⟩).visits = inside ++ later ∧
      List.Forall₂ (Visit.Mirrors (opened + 1)) (Scanner.start (find source opened).text).visits
        inside ∧
      (∀ w ∈ earlier, w.position < opened + 1) ∧
      ∀ w ∈ later, opened + 1 + (find source opened).text.length ≤ w.position := by
  have hopen : CodeAt source opened '(' :=
    ⟨hparen, inCode_of_classify hcode (by rw [hparen]; simp [Reading.IsSecond])⟩
  have hcode' := hopen.inCode_succ (by decide)
  obtain ⟨rest, hstands⟩ := standsAt hopen
  obtain ⟨inside, later, hvisits, hmirror, hlater⟩ := hstands.visits_mirror
  have hfollows := Scanner.ofCheckpoint_follows hopen.lt hcode'.state_eq hcode'.halfway_eq
  obtain ⟨earlier, hwhole, hearlier⟩ :=
    (Scanner.start_follows source).visits_eq_append hfollows (Nat.zero_le _)
  rw [hvisits] at hwhole
  refine ⟨?_, earlier, inside, later, hwhole, hvisits, hmirror, hearlier, hlater⟩
  intro v hv
  have hat := ((Scanner.start_follows _).visits_spec.1 v hv).2
  obtain ⟨hp, -⟩ := List.getElem?_eq_some_iff.mp hat.char_eq
  have hagree := hstands.agree (Nat.le_of_lt hp)
  have hlength : opened + 1 + v.position ≤ source.length := by
    have := congrArg List.length hstands.drop_eq
    rw [List.length_drop, List.length_append] at this
    omega
  have hposition := (Scanner.start_follows source).advanceTo_position (Nat.zero_le _) hlength
    (hagree.halfway_eq.trans hat.halfway_eq)
  refine ⟨hposition, ?_⟩
  calc
    ((Scanner.start source).advanceTo (opened + 1 + v.position)).state
      = (readingAt source (opened + 1 + v.position)).state := classify_eq source _
    _ = (readingAt (find source opened).text v.position).state := hagree.state_eq
    _ = v.state := hat.state_eq

/-- The arguments of a call that never ends, with a template and a comment in them. -/
theorem scans_in_step_unclosed :
    let source := "f(`${a}`, /*".toList
    (source[1]? = some '(' ∧ classify source 1 = .code) ∧
      ∀ v ∈ (Scanner.start (find source 1).text).visits,
        ((Scanner.start source).advanceTo (2 + v.position)).position = 2 + v.position ∧
          ((Scanner.start source).advanceTo (2 + v.position)).state = v.state := by
  have hparen : "f(`${a}`, /*".toList[1]? = some '(' := by decide
  have hcode : classify "f(`${a}`, /*".toList 1 = .code :=
    (classify_eq _ 1).trans (by decide +kernel)
  exact ⟨⟨hparen, hcode⟩, (scans_in_step hparen hcode).1⟩

end ArgumentList
end SourceStamp
