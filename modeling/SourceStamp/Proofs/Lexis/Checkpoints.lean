import SourceStamp.Proofs.Lexis.Delimiters
import SourceStamp.Proofs.Lexis.Visits

/-!
# Checkpoints

A scan can be taken up again at an offset with the state that holds there. Inside a delimiter that
state is the one after the delimiter, so the scan reads its second character once more.

- `Visit.Overlaps`: the second character of a delimiter begins what reads as another one.
- `Visit.reread`: read again after any other delimiter, it changes nothing.
- `classifyFrom_classify_iff`: a checkpoint at an offset never changes an answer exactly when no
  overlapping delimiter starts one character before.
-/

namespace SourceStamp

open LexicalState (takesNext_cases after_ne_of_takesNext)

variable {source : Text} {v : Visit}

/-! ## Advancing -/

namespace Scanner

theorem advanceTo_of_le {s : Scanner} {offset : Nat} (h : offset ≤ s.position) :
    s.advanceTo offset = s := by
  rw [advanceTo]
  exact dif_neg fun hcond => absurd hcond.1 (Nat.not_lt_of_le h)

theorem advanceTo_of_lt {s : Scanner} {offset : Nat} {c : Char} {r : Text} (h : s.position < offset)
    (hr : s.rest = c :: r) : s.advanceTo offset = s.step.advanceTo offset := by
  rw [advanceTo]
  exact dif_pos ⟨h, by rw [hr]; exact List.cons_ne_nil c r⟩

/-- Wherever no delimiter is half read, a scan from the start has a visit. -/
theorem exists_visit {p : Nat} (hp : p < source.length) (h : (readingAt source p).halfway = false) :
    ∃ v ∈ (start source).visits, v.position = p := by
  have hfollows := ofCheckpoint_follows (Nat.le_of_lt hp) rfl h
  obtain ⟨earlier, hvisits, -⟩ :=
    (start_follows source).visits_eq_append hfollows (Nat.zero_le p)
  have hrest : (ofCheckpoint source ⟨p, (readingAt source p).state⟩).rest =
      source[p] :: source.drop (p + 1) := List.drop_eq_getElem_cons hp
  rw [visits_of_cons hrest] at hvisits
  rw [hvisits]
  exact ⟨_, List.mem_append_right earlier List.mem_cons_self, rfl⟩

end Scanner

/-! ## Delimiters that are read again -/

namespace Visit

/-- The second character of the delimiter at a visit begins another one with the character after it:
the delimiter opens a block comment before a slash, or closes one before a slash or a star. -/
def Overlaps (source : Text) (v : Visit) : Prop :=
  v.state = .code ∧ v.char = '/' ∧ v.next = some '*' ∧ source[v.position + 2]? = some '/' ∨
    v.state = .blockComment ∧ v.char = '*' ∧ v.next = some '/' ∧
      (source[v.position + 2]? = some '/' ∨ source[v.position + 2]? = some '*')

/-- The move at a visit. -/
def move (source : Text) (v : Visit) : LexicalState.Move :=
  v.state.move ((readingAt source v.position).previous == some Text.backslash) v.char v.next

/-- The reading after a visit. -/
theorem IsAt.readingAt_succ (h : v.IsAt source) :
    readingAt source (v.position + 1) =
      ⟨(v.move source).after, (v.move source).takesNext, some v.char⟩ := by
  obtain ⟨hp, hc⟩ := List.getElem?_eq_some_iff.mp h.char_eq
  rw [SourceStamp.readingAt_succ hp, Reading.next_of_not_halfway h.halfway_eq, h.state_eq, hc,
    ← h.next_eq]
  rfl

/-- What becomes of the second character of a delimiter when it is read again. -/
theorem reread (ht : (v.move source).takesNext = true) {d : Char} (hd : v.next = some d) (e : Bool) :
    v.Overlaps source ∧
        ((v.move source).after.move e d source[v.position + 2]?).takesNext = true ∨
      ¬ v.Overlaps source ∧
        (v.move source).after.move e d source[v.position + 2]? = ⟨(v.move source).after, false⟩ := by
  rcases takesNext_cases ht with ⟨hs, hc, hn, ha⟩ | ⟨hs, hc, hn, ha⟩ | ⟨depth, hs, hc, hn, ha⟩ |
    ⟨hs, hc, hn, ha⟩
  all_goals
    obtain rfl := Option.some.inj (hd.symm.trans hn)
    rw [move, ha]
  · exact .inr ⟨by simp [Overlaps, hs, hn], rfl⟩
  · by_cases hf : source[v.position + 2]? = some '/'
    · exact .inl ⟨.inl ⟨hs, hc, hn, hf⟩, by simp [LexicalState.move, hf]⟩
    · exact .inr ⟨by simp [Overlaps, hs, hf], by simp [LexicalState.move, hf]⟩
  · exact .inr ⟨by simp [Overlaps, hs], by simp [LexicalState.move]⟩
  · by_cases hf : source[v.position + 2]? = some '/' ∨ source[v.position + 2]? = some '*'
    · refine .inl ⟨.inr ⟨hs, hc, hn, hf⟩, ?_⟩
      rcases hf with hf | hf <;> simp [LexicalState.move, hf]
    · refine .inr ⟨by simp [Overlaps, hs, hf], ?_⟩
      obtain ⟨hf1, hf2⟩ := not_or.mp hf
      simp [LexicalState.move, hf1, hf2, Text.doubleQuote, Text.singleQuote, Text.backtick]

/-- An overlapping delimiter is one of two characters. -/
theorem Overlaps.takesNext (h : v.Overlaps source) : (v.move source).takesNext = true := by
  rcases h with ⟨hs, hc, hn, -⟩ | ⟨hs, hc, hn, -⟩ <;>
    simp [move, LexicalState.move, hs, hc, hn]

end Visit

/-! ## Checkpoints inside delimiters -/

section Inside

variable (h : v.IsAt source) (ht : (v.move source).takesNext = true)

include h ht

/-- The state inside a delimiter is the one after it. -/
theorem Visit.IsAt.classify_inside {k : Nat} (hk : k = 1 ∨ k = 2) :
    classify source (v.position + k : Nat) = (v.move source).after := by
  obtain ⟨d, hd⟩ := Option.isSome_iff_exists.mp (LexicalState.takesNext_isSome ht)
  obtain ⟨hp, -⟩ := List.getElem?_eq_some_iff.mp (h.next_eq.symm.trans hd)
  have hread := h.readingAt_succ
  rw [classify_eq]
  rcases hk with rfl | rfl
  · rw [hread]
  · rw [SourceStamp.readingAt_succ hp, hread, Reading.next_of_halfway ht]

/-- A scan that is taken up inside a delimiter goes wrong at its end, or is right from there on. -/
theorem Visit.IsAt.restart {s : Scanner}
    (hs : s = .ofCheckpoint source ⟨v.position + 1, (v.move source).after⟩) :
    v.Overlaps source ∧ (s.advanceTo (v.position + 2)).state ≠ (v.move source).after ∨
      ¬ v.Overlaps source ∧
        ∀ o : Nat, v.position + 2 ≤ o → (s.advanceTo o).state = classify source o := by
  obtain ⟨d, hd⟩ := Option.isSome_iff_exists.mp (LexicalState.takesNext_isSome ht)
  obtain ⟨hp, hget⟩ := List.getElem?_eq_some_iff.mp (h.next_eq.symm.trans hd)
  have hposition : s.position = v.position + 1 := by rw [hs]; rfl
  have hstate : s.state = (v.move source).after := by rw [hs]; rfl
  have hrest : s.rest = d :: source.drop (v.position + 2) := by
    rw [hs, ← hget]
    exact List.drop_eq_getElem_cons hp
  have hadvance : ∀ o, v.position + 2 ≤ o → s.advanceTo o = s.step.advanceTo o := fun o hle =>
    Scanner.advanceTo_of_lt (by omega) hrest
  -- the scan reads the second character of the delimiter on its own
  have hreread := Visit.reread ht hd s.escaped
  rw [← List.head?_drop, ← hstate] at hreread
  rcases hreread with ⟨hoverlaps, htakes⟩ | ⟨hoverlaps, hstays⟩
  · obtain ⟨d', r, -, hstep⟩ := Scanner.step_of_takesNext hrest htakes
    refine .inl ⟨hoverlaps, ?_⟩
    rw [hposition] at hstep
    rw [hadvance _ (Nat.le_refl _), hstep, Scanner.advanceTo_of_le (Nat.le_succ _), ← hstate]
    exact after_ne_of_takesNext htakes
  · have hstep := Scanner.step_of_not_takesNext hrest (by rw [hstays])
    have hread : readingAt source (v.position + 2) = ⟨(v.move source).after, false, some d⟩ := by
      rw [SourceStamp.readingAt_succ hp, h.readingAt_succ, Reading.next_of_halfway ht, hget]
    rw [hstays, hposition, hstate] at hstep
    have hfollows : s.step.Follows source := by
      rw [hstep]
      exact ⟨hp, rfl, hread⟩
    refine .inr ⟨hoverlaps, fun o hle => ?_⟩
    rw [hadvance o hle, classify_eq]
    exact (hfollows.advanceTo (.inl (by rw [hstep]; exact hle))).2

end Inside

/-- An offset inside a delimiter is right after the visit of the delimiter. -/
theorem exists_visit_of_halfway {c : Nat} (h : (readingAt source c).halfway = true) :
    ∃ v ∈ (Scanner.start source).visits, v.position + 1 = c ∧ v.IsAt source ∧
      (v.move source).takesNext = true := by
  obtain ⟨q, hq, rfl, hwhole, -⟩ := exists_of_halfway h
  obtain ⟨v, hv, rfl⟩ := Scanner.exists_visit hq hwhole
  have hat := ((Scanner.start_follows source).visits_spec.1 v hv).2
  rw [hat.readingAt_succ] at h
  exact ⟨v, hv, rfl, hat, h⟩

/-- A checkpoint at or before an offset is used. -/
theorem classifyFrom_eq {c o : Nat} (state : LexicalState) (hle : c ≤ o) :
    classifyFrom source ⟨c, state⟩ o =
      ((Scanner.ofCheckpoint source ⟨c, state⟩).advanceTo o).state :=
  if_pos (Int.ofNat_le.mpr hle)

/-- At its own offset a checkpoint is the answer. -/
theorem classifyFrom_self (c : Nat) (state : LexicalState) :
    classifyFrom source ⟨c, state⟩ c = state := by
  have hstays : (Scanner.ofCheckpoint source ⟨c, state⟩).advanceTo c =
      .ofCheckpoint source ⟨c, state⟩ := Scanner.advanceTo_of_le (Nat.le_refl _)
  rw [classifyFrom_eq state (Nat.le_refl c), hstays]
  rfl

/-- **Checkpoints**: a scan that is taken up at an offset, with the state that a scan from the start
has there, always gives the answers of a scan from the start, unless the offset is inside a delimiter
whose second character begins what reads as another one. -/
theorem classifyFrom_classify_iff (source : Text) (c : Nat) :
    (∀ o : Nat, c ≤ o → o ≤ source.length →
        classifyFrom source ⟨c, classify source c⟩ o = classify source o) ↔
      ∀ v ∈ (Scanner.start source).visits, v.position + 1 = c → ¬ v.Overlaps source := by
  constructor
  · rintro hall v hv rfl hoverlaps
    have hat := ((Scanner.start_follows source).visits_spec.1 v hv).2
    have ht := hoverlaps.takesNext
    obtain ⟨d, hd⟩ := Option.isSome_iff_exists.mp (LexicalState.takesNext_isSome ht)
    obtain ⟨hp, -⟩ := List.getElem?_eq_some_iff.mp (hat.next_eq.symm.trans hd)
    have hanswer := hall (v.position + 2) (Nat.le_succ _) hp
    rw [classifyFrom_eq _ (Nat.le_succ _), hat.classify_inside ht (.inl rfl),
      hat.classify_inside ht (.inr rfl)] at hanswer
    rcases hat.restart ht rfl with ⟨-, hwrong⟩ | ⟨hnot, -⟩
    · exact hwrong hanswer
    · exact hnot hoverlaps
  · intro hnone o hle hlength
    cases hhalf : (readingAt source c).halfway with
    | false =>
      have hfollows := Scanner.ofCheckpoint_follows (Nat.le_trans hle hlength)
        (classify_eq source c).symm hhalf
      rw [classifyFrom_eq _ hle, classify_eq source o]
      exact (hfollows.advanceTo (.inl hle)).2
    | true =>
      obtain ⟨v, hv, rfl, hat, ht⟩ := exists_visit_of_halfway hhalf
      rcases Nat.eq_or_lt_of_le hle with rfl | hlt
      · exact classifyFrom_self _ _
      · rw [classifyFrom_eq _ hle, hat.classify_inside ht (.inl rfl)]
        rcases hat.restart ht rfl with ⟨hoverlaps, -⟩ | ⟨-, hright⟩
        · exact absurd hoverlaps (hnone v hv rfl)
        · exact hright o hlt

/-- After the opener of a block comment, read again from its star on, a slash seems to close the
comment. -/
example : classifyFrom "/*/".toList ⟨1, classify "/*/".toList 1⟩ 3 = .code ∧
    classify "/*/".toList 3 = .blockComment := by
  cbv

end SourceStamp
