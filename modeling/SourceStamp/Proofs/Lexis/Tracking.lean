import SourceStamp.Proofs.Lexis.Classification

/-!
# Runs of a tracker

A tracker is asked about offsets in any order. `Tracker.Sound` is what one question keeps; here it
is carried over whole runs.

- `Tracker.seekAll`: the tracker after a sequence of questions.
- `Tracker.Descending`: the checkpoints come from later to earlier, so the first one that is not
  behind an offset is the nearest (`Tracker.Descending.le_checkpointFor`).
- `Tracker.statesAt_ofSource`: every answer of a run is that of a fresh scan.
-/

namespace SourceStamp
namespace Tracker

/-- The tracker after a sequence of questions. -/
def seekAll (t : Tracker) (offsets : List Nat) : Tracker :=
  offsets.foldl (fun t (offset : Nat) => t.seek offset) t

@[simp] theorem seekAll_cons (t : Tracker) (offset : Nat) (offsets : List Nat) :
    t.seekAll (offset :: offsets) = (t.seek offset).seekAll offsets := rfl

@[simp] theorem seekAll_source (t : Tracker) (offsets : List Nat) :
    (t.seekAll offsets).source = t.source := by
  induction offsets generalizing t with
  | nil => rfl
  | cons offset offsets ih => rw [seekAll_cons, ih, seek_source]

/-- The checkpoints come from later to earlier, none twice. -/
def Descending (t : Tracker) : Prop :=
  t.checkpoints.Pairwise fun c c' => c'.position < c.position

theorem ofSource_descending (source : Text) : (ofSource source).Descending :=
  List.pairwise_singleton _ _

/-- A checkpoint is remembered only past the newest one. -/
theorem Descending.remember {t : Tracker} (h : t.Descending) : t.remember.Descending := by
  unfold Tracker.remember
  split
  · next hlt =>
    refine List.pairwise_cons.mpr ⟨?_, h⟩
    intro c hc
    rcases List.mem_cons.mp hc with rfl | hc
    · exact hlt
    · exact Nat.lt_trans ((List.pairwise_cons.mp h).1 c hc) hlt
  · exact h

theorem Descending.seek {t : Tracker} (h : t.Descending) (offset : Int) :
    (t.seek offset).Descending := by
  unfold Tracker.seek
  split
  · exact h
  · exact h.remember

/-- A scan that goes back starts at the nearest checkpoint. -/
theorem Descending.le_checkpointFor {t : Tracker} (h : t.Descending) {offset : Nat}
    {c : Checkpoint} (hc : c ∈ t.checkpoints) (hle : c.position ≤ offset) :
    c.position ≤ (t.checkpointFor offset).position := by
  unfold Tracker.checkpointFor
  cases hfind : t.checkpoints.find? (fun c => decide ((c.position : Int) ≤ offset)) with
  | none =>
    have := List.find?_eq_none.mp hfind c hc
    simp only [decide_eq_true_eq] at this
    omega
  | some found =>
    obtain ⟨-, earlier, later, hsplit, hbehind⟩ := List.find?_eq_some_iff_append.mp hfind
    unfold Descending at h
    rw [hsplit] at h hc
    rcases List.mem_append.mp hc with hc | hc
    · -- what comes before the one that is found lies behind the offset
      have := hbehind c hc
      simp only [Bool.not_eq_true', decide_eq_false_iff_not] at this
      omega
    · rcases List.mem_cons.mp hc with rfl | hc
      · exact Nat.le_refl _
      · have hlater := (List.pairwise_cons.mp (List.pairwise_append.mp h).2.1).1
        exact Nat.le_of_lt (hlater c hc)

/-- A run of questions keeps the tracker sound and its checkpoints in order. -/
theorem Sound.seekAll {t : Tracker} (h : t.Sound) (hd : t.Descending) (offsets : List Nat) :
    (t.seekAll offsets).Sound ∧ (t.seekAll offsets).Descending := by
  induction offsets generalizing t with
  | nil => exact ⟨h, hd⟩
  | cons offset offsets ih => exact ih (h.seek offset).1 (hd.seek offset)

/-- The answers of a sound tracker are those of fresh scans. -/
theorem Sound.statesAt_eq {t : Tracker} (h : t.Sound) (offsets : List Nat) :
    t.statesAt (offsets.map Int.ofNat) =
      offsets.map fun offset : Nat => classify t.source offset := by
  induction offsets generalizing t with
  | nil => rfl
  | cons offset offsets ih =>
    obtain ⟨hsound, hsource⟩ := h.stateAt offset
    have hrest := ih hsound
    rw [hsource] at hrest
    show (t.stateAt offset).1 :: (t.stateAt offset).2.statesAt (offsets.map Int.ofNat) = _
    rw [h.stateAt_eq, hrest, List.map_cons]

/-- **Trackers**: whatever the order of the questions, every answer is that of a fresh scan.

After any run of questions each checkpoint stands between two delimiters of the source text, with
the state that a fresh scan has there, and a scan that goes back to an offset starts at the nearest
checkpoint that is not behind it. -/
theorem statesAt_ofSource (source : Text) (offsets : List Nat) :
    (ofSource source).statesAt (offsets.map Int.ofNat) =
        offsets.map (fun offset : Nat => classify source offset) ∧
      ∀ c ∈ ((ofSource source).seekAll offsets).checkpoints,
        (readingAt source c.position).halfway = false ∧ c.state = classify source c.position ∧
          ∀ offset : Nat, c.position ≤ offset →
            c.position ≤ (((ofSource source).seekAll offsets).checkpointFor offset).position := by
  have hsound := ofSource_sound source
  refine ⟨hsound.statesAt_eq offsets, ?_⟩
  intro c hc
  obtain ⟨hafter, hdesc⟩ := hsound.seekAll (ofSource_descending source) offsets
  obtain ⟨-, hstate, hhalf⟩ := hafter.checkpoints_good c hc
  rw [seekAll_source] at hstate hhalf
  refine ⟨hhalf, ?_, fun offset hle => hdesc.le_checkpointFor hc hle⟩
  rw [classify_eq]
  exact hstate.symm

end Tracker
end SourceStamp
