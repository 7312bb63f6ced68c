import SourceStamp.Proofs.Lexis.Reading

/-!
# The visits of a scan

A scan visits the characters of a text at which no delimiter is half read.

- `Reading.visits`: the same visits, by recursion on the characters; `Scanner.visits_eq`.
- `Scanner.Follows.visits_spec`: each visit shows the character, the one after it and the lexical
  state that the source text has there.
- `Scanner.Follows.visits_eq_append`: from any offset between delimiters on, the visits of a scan
  are those of a scan that starts there.
-/

namespace SourceStamp

/-- The visits of a text that is read from `r` at the offset `position`. -/
def Reading.visits (r : Reading) (position : Nat) : Text → List Visit
  | [] => []
  | c :: t =>
    let rest := (r.next c t.head?).visits (position + 1) t
    if r.halfway then rest else ⟨position, c, t.head?, r.state⟩ :: rest

namespace Reading

theorem visits_of_halfway {r : Reading} (h : r.halfway = true) (position : Nat) (c : Char)
    (t : Text) : r.visits position (c :: t) = (r.next c t.head?).visits (position + 1) t := by
  rw [visits]
  exact if_pos h

theorem visits_of_not_halfway {r : Reading} (h : r.halfway = false) (position : Nat) (c : Char)
    (t : Text) : r.visits position (c :: t) =
      ⟨position, c, t.head?, r.state⟩ :: (r.next c t.head?).visits (position + 1) t := by
  rw [visits]
  exact if_neg (by simp [h])

end Reading

namespace Scanner

/-- Where a scanner stands, as a reading. -/
def reading (s : Scanner) : Reading := ⟨s.state, false, s.previous⟩

theorem visits_of_nil {s : Scanner} (hr : s.rest = []) : s.visits = [] := by
  rw [visits]
  split
  · rfl
  · next h => rw [hr] at h; cases h

theorem visits_of_cons {s : Scanner} {c : Char} {r : Text} (hr : s.rest = c :: r) :
    s.visits = ⟨s.position, c, r.head?, s.state⟩ :: s.step.visits := by
  rw [visits]
  split
  · next h => rw [hr] at h; cases h
  · next h =>
    rw [hr] at h
    injection h with hc hr'
    rw [hc, hr']

/-- The visits of a scanner, character by character. -/
theorem visits_eq (s : Scanner) : s.visits = s.reading.visits s.position s.rest := by
  fun_induction Scanner.visits s with
  | case1 s hr => rw [hr]; rfl
  | case2 s c r hr ih =>
    rw [ih, hr, Reading.visits_of_not_halfway rfl, Reading.next_of_not_halfway rfl]
    congr 1
    show s.step.reading.visits s.step.position s.step.rest =
      Reading.visits ⟨(s.state.move s.escaped c r.head?).after,
        (s.state.move s.escaped c r.head?).takesNext, some c⟩ (s.position + 1) r
    cases ht : (s.state.move s.escaped c r.head?).takesNext with
    | false => rw [step_of_not_takesNext hr ht]; rfl
    | true =>
      obtain ⟨d, r', rfl, hstep⟩ := step_of_takesNext hr ht
      rw [hstep, Reading.visits_of_halfway rfl, Reading.next_of_halfway rfl]
      rfl

end Scanner

/-- A visit shows what the source text has at its position. -/
structure Visit.IsAt (source : Text) (v : Visit) : Prop where
  char_eq : source[v.position]? = some v.char
  next_eq : v.next = source[v.position + 1]?
  state_eq : (readingAt source v.position).state = v.state
  halfway_eq : (readingAt source v.position).halfway = false

namespace Reading

/-- The visits from an offset of a source text on, in ascending order. -/
theorem visits_spec {source : Text} (t : Text) {p : Nat} (ht : source.drop p = t) :
    (∀ v ∈ (readingAt source p).visits p t, p ≤ v.position ∧ v.IsAt source) ∧
      ((readingAt source p).visits p t).Pairwise (·.position < ·.position) := by
  induction t generalizing p with
  | nil => exact ⟨fun v hv => (nomatch hv), List.Pairwise.nil⟩
  | cons c t ih =>
    have hp : p < source.length := by
      refine Nat.lt_of_not_le ?_
      intro hle
      rw [List.drop_eq_nil_of_le hle] at ht
      cases ht
    rw [List.drop_eq_getElem_cons hp] at ht
    injection ht with hc ht
    have hnext : t.head? = source[p + 1]? := by rw [← ht, List.head?_drop]
    have hread : readingAt source (p + 1) = (readingAt source p).next c t.head? := by
      rw [readingAt_succ hp, hc, hnext]
    obtain ⟨hmem, hsorted⟩ := ih ht
    rw [hread] at hmem hsorted
    by_cases hh : (readingAt source p).halfway = true
    · rw [visits_of_halfway hh]
      exact ⟨fun v hv => ⟨Nat.le_of_succ_le (hmem v hv).1, (hmem v hv).2⟩, hsorted⟩
    · have hh : (readingAt source p).halfway = false := by simpa using hh
      rw [visits_of_not_halfway hh]
      refine ⟨?_, List.pairwise_cons.mpr ⟨fun v hv => (hmem v hv).1, hsorted⟩⟩
      intro v hv
      rcases List.mem_cons.mp hv with rfl | hv
      · exact ⟨Nat.le_refl _, by rw [List.getElem?_eq_getElem hp, hc], hnext, rfl, hh⟩
      · exact ⟨Nat.le_of_succ_le (hmem v hv).1, (hmem v hv).2⟩

/-- The visits of a text go on at any later offset with those of the rest of the text. -/
theorem visits_eq_append {source : Text} {p : Nat} (k : Nat) :
    ∃ earlier, (readingAt source p).visits p (source.drop p) =
        earlier ++ (readingAt source (p + k)).visits (p + k) (source.drop (p + k)) ∧
      ∀ v ∈ earlier, v.position < p + k := by
  induction k with
  | zero => exact ⟨[], rfl, fun v hv => nomatch hv⟩
  | succ k ih =>
    obtain ⟨earlier, heq, hlt⟩ := ih
    rw [heq]
    rcases Nat.lt_or_ge (p + k) source.length with hp | hp
    · have hread : readingAt source (p + k + 1) =
          (readingAt source (p + k)).next source[p + k] (source.drop (p + k + 1)).head? := by
        rw [readingAt_succ hp, List.head?_drop]
      rw [List.drop_eq_getElem_cons hp, ← Nat.add_assoc, hread]
      by_cases hh : (readingAt source (p + k)).halfway = true
      · rw [visits_of_halfway hh]
        exact ⟨earlier, rfl, fun v hv => Nat.lt_succ_of_lt (hlt v hv)⟩
      · rw [visits_of_not_halfway (by simpa using hh)]
        refine ⟨earlier ++ [⟨p + k, source[p + k], (source.drop (p + k + 1)).head?,
          (readingAt source (p + k)).state⟩], by simp, ?_⟩
        intro v hv
        rcases List.mem_append.mp hv with hv | hv
        · exact Nat.lt_succ_of_lt (hlt v hv)
        · rw [List.mem_singleton.mp hv]
          exact Nat.lt_succ_self _
    · rw [List.drop_eq_nil_of_le hp, ← Nat.add_assoc,
        List.drop_eq_nil_of_le (Nat.le_succ_of_le hp)]
      exact ⟨earlier, rfl, fun v hv => Nat.lt_succ_of_lt (hlt v hv)⟩

end Reading

namespace Scanner

variable {source : Text} {s : Scanner}

/-- The visits of a scanner depend on the source text and its position only. -/
theorem Follows.visits_eq (h : s.Follows source) :
    s.visits = (readingAt source s.position).visits s.position (source.drop s.position) := by
  rw [Scanner.visits_eq, h.reading_eq, ← h.rest_eq]
  rfl

theorem Follows.visits_spec (h : s.Follows source) :
    (∀ v ∈ s.visits, s.position ≤ v.position ∧ v.IsAt source) ∧
      s.visits.Pairwise (·.position < ·.position) := by
  rw [h.visits_eq]
  exact Reading.visits_spec _ rfl

/-- From any later offset on, the visits of a scan are those of a scan that starts there. -/
theorem Follows.visits_eq_append (h : s.Follows source) {s' : Scanner} (h' : s'.Follows source)
    (hle : s.position ≤ s'.position) :
    ∃ earlier, s.visits = earlier ++ s'.visits ∧ ∀ v ∈ earlier, v.position < s'.position := by
  obtain ⟨k, hk⟩ := Nat.exists_eq_add_of_le hle
  rw [h.visits_eq, h'.visits_eq, hk]
  exact Reading.visits_eq_append k

end Scanner
end SourceStamp
