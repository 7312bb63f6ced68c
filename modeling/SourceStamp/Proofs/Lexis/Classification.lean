import SourceStamp.Lexis.Tracker
import SourceStamp.Proofs.Lexis.Reading

/-!
# Every way of asking gives the same state

- `classify_eq`: a scan from the start answers the state of the reading at the offset.
- `Tracker.stateAt_eq`: so does a tracker, whatever it was asked before. The invariant is
  `Tracker.Sound`: the running scanner and all checkpoints stand at readings of the source text,
  and the start is among the checkpoints.
- `Scanner.foldl_visits`: what one visit keeps, a whole scan keeps.
-/

namespace SourceStamp
namespace Scanner

variable {source : Text} {s : Scanner}

/-- The scanner has not passed the offset, or it has just consumed a delimiter that straddles it
and holds the state that reaches over it. -/
def Answers (source : Text) (offset : Nat) (s : Scanner) : Prop :=
  s.position ≤ offset ∨ s.state = (readingAt source offset).state

/-- A step from before the offset does not overshoot it with a wrong state. -/
theorem Follows.step_answers (h : s.Follows source) {offset : Nat} (hlt : s.position < offset)
    {c : Char} {r : Text} (hr : s.rest = c :: r) : s.step.Answers source offset := by
  have hread := h.readingAt_succ hr
  cases ht : (s.state.move s.escaped c r.head?).takesNext with
  | false =>
    rw [step_of_not_takesNext hr ht]
    exact .inl hlt
  | true =>
    obtain ⟨d, r', rfl, hstep⟩ := step_of_takesNext hr ht
    rw [hstep]
    rcases Nat.lt_or_ge (s.position + 1) offset with hlt' | hge
    · exact .inl hlt'
    · -- the offset lies between the two characters of the delimiter
      obtain rfl : offset = s.position + 1 := Nat.le_antisymm hge hlt
      exact .inr (by rw [hread])

/-- Advancing a scanner ends at the offset or just past a delimiter that straddles it. -/
theorem Follows.advanceTo (h : s.Follows source) {offset : Nat} (ha : s.Answers source offset) :
    (s.advanceTo offset).Follows source ∧
      (s.advanceTo offset).state = (readingAt source offset).state := by
  fun_induction Scanner.advanceTo offset s with
  | case1 s hcond ih =>
    obtain ⟨c, r, hr⟩ := List.exists_cons_of_ne_nil hcond.2
    exact ih h.step (h.step_answers hcond.1 hr)
  | case2 s hcond =>
    refine ⟨h, ?_⟩
    rcases ha with hle | heq
    · rcases Nat.eq_or_lt_of_le hle with rfl | hlt
      · rw [h.reading_eq]
      · -- the text ended before the offset
        have hnil : s.rest = [] := by
          refine Classical.byContradiction ?_
          intro hne
          exact hcond ⟨hlt, hne⟩
        have hend : source.length ≤ s.position := List.drop_eq_nil_iff.mp (h.rest_eq ▸ hnil)
        rw [readingAt_of_length_le (Nat.le_trans hend hle), ← readingAt_of_length_le hend,
          h.reading_eq]
    · exact heq

/-- What each visit keeps, a scan of the whole remaining text keeps. -/
theorem foldl_visits {β : Type} {P : Scanner → β → Prop} {f : β → Visit → β}
    (hstep : ∀ s b c r, s.Follows source → s.rest = c :: r → P s b →
      P s.step (f b ⟨s.position, c, r.head?, s.state⟩))
    (h : s.Follows source) {b : β} (hb : P s b) :
    ∃ s' : Scanner, s'.Follows source ∧ s'.position = source.length ∧
      P s' (s.visits.foldl f b) := by
  fun_induction Scanner.visits s generalizing b with
  | case1 s hr =>
    refine ⟨s, h, ?_, hb⟩
    exact Nat.le_antisymm h.position_le (List.drop_eq_nil_iff.mp (h.rest_eq ▸ hr))
  | case2 s c r hr ih => exact ih h.step (hstep s b c r h hr hb)

end Scanner

/-- **Classification**: the state at an offset is that of the reading there. -/
theorem classify_eq (source : Text) (offset : Nat) :
    classify source offset = (readingAt source offset).state :=
  ((Scanner.start_follows source).advanceTo (.inl (Nat.zero_le offset))).2

/-! ## Trackers -/

namespace Tracker

/-- The checkpoint stands between delimiters, with the right state. -/
def GoodCheckpoint (source : Text) (c : Checkpoint) : Prop :=
  c.position ≤ source.length ∧ (readingAt source c.position).state = c.state ∧
    (readingAt source c.position).halfway = false

theorem start_goodCheckpoint (source : Text) : GoodCheckpoint source ⟨0, .code⟩ :=
  ⟨Nat.zero_le _, rfl, rfl⟩

/-- All that a tracker remembers is right, and it can always go back to the start. -/
structure Sound (t : Tracker) : Prop where
  scanner_follows : t.scanner.Follows t.source
  checkpoints_good : ∀ c ∈ t.checkpoints, GoodCheckpoint t.source c
  start_mem : ⟨0, .code⟩ ∈ t.checkpoints

theorem ofSource_sound (source : Text) : (ofSource source).Sound := by
  refine ⟨Scanner.start_follows source, ?_, List.mem_singleton.mpr rfl⟩
  intro c hc
  rw [List.mem_singleton.mp hc]
  exact start_goodCheckpoint source

@[simp] theorem remember_source (t : Tracker) : t.remember.source = t.source := by
  unfold remember
  split <;> rfl

@[simp] theorem remember_scanner (t : Tracker) : t.remember.scanner = t.scanner := by
  unfold remember
  split <;> rfl

theorem Sound.remember {t : Tracker} (h : t.Sound) : t.remember.Sound := by
  unfold Tracker.remember
  split
  · refine ⟨h.scanner_follows, ?_, List.mem_cons_of_mem _ h.start_mem⟩
    intro c hc
    rcases List.mem_cons.mp hc with rfl | hc
    · have hread := h.scanner_follows.reading_eq
      exact ⟨h.scanner_follows.position_le, by rw [hread], by rw [hread]⟩
    · exact h.checkpoints_good c hc
  · exact h

/-- An offset that is not negative finds a checkpoint that is not behind it. -/
theorem Sound.checkpointFor {t : Tracker} (h : t.Sound) (offset : Nat) :
    GoodCheckpoint t.source (t.checkpointFor offset) ∧
      (t.checkpointFor offset).position ≤ offset := by
  unfold Tracker.checkpointFor
  cases hfind : t.checkpoints.find? (fun c => decide ((c.position : Int) ≤ offset)) with
  | none =>
    have := List.find?_eq_none.mp hfind _ h.start_mem
    simp at this
  | some c =>
    have hle : (c.position : Int) ≤ offset := by simpa using List.find?_some hfind
    exact ⟨h.checkpoints_good c (List.mem_of_find?_eq_some hfind), Int.ofNat_le.mp hle⟩

@[simp] theorem seek_source (t : Tracker) (offset : Int) : (t.seek offset).source = t.source := by
  unfold seek
  split
  · rfl
  · exact remember_source t

/-- A question keeps the tracker sound and leaves its scanner with the state asked for. -/
theorem Sound.seek {t : Tracker} (h : t.Sound) (offset : Nat) :
    (t.seek offset).Sound ∧ (t.seek offset).scanner.state = (readingAt t.source offset).state := by
  unfold Tracker.seek
  split
  · obtain ⟨⟨hlen, hstate, hhalf⟩, hle⟩ := h.checkpointFor offset
    obtain ⟨hfollows, heq⟩ :=
      (Scanner.ofCheckpoint_follows hlen hstate hhalf).advanceTo (.inl hle)
    exact ⟨⟨hfollows, h.checkpoints_good, h.start_mem⟩, heq⟩
  · next hlt =>
    have hr := h.remember
    have hle : t.remember.scanner.position ≤ offset := by
      rw [remember_scanner]
      omega
    obtain ⟨hfollows, heq⟩ := hr.scanner_follows.advanceTo (.inl hle)
    refine ⟨⟨hfollows, hr.checkpoints_good, hr.start_mem⟩, ?_⟩
    rw [← remember_source t]
    exact heq

/-- The answer of a tracker is that of a fresh scan. -/
theorem Sound.stateAt_eq {t : Tracker} (h : t.Sound) (offset : Nat) :
    (t.stateAt offset).1 = classify t.source offset := by
  rw [classify_eq]
  exact (h.seek offset).2

/-- A tracker can be asked again, about the same source text. -/
theorem Sound.stateAt {t : Tracker} (h : t.Sound) (offset : Nat) :
    (t.stateAt offset).2.Sound ∧ (t.stateAt offset).2.source = t.source :=
  ⟨(h.seek offset).1, seek_source t offset⟩

end Tracker
end SourceStamp
