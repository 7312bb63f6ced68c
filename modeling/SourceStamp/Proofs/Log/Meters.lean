import SourceStamp.Proofs.Log.Told

/-!
# What the calls of a logger do to its meters

- `Meters.timer?_start`, `Meters.count_increment` and their like: what a label is under after a
  change of the meters.
- `Logger.startTimer_run`, `Logger.stopTimer_run`, `Logger.measure_run`, `Logger.count_run`: what
  the calls answer and leave behind.
- `Logger.CanTell`, `Logger.emit_settles`: whether the line that a call logs can be made.
-/

namespace SourceStamp

/-! ## Timers and counters by label -/

namespace Meters

variable {β : Type} {m : Meters} {label other : Text} {now : Ticks} {metadata : Value}

theorem lookup_filter (xs : List (Text × β)) :
    (xs.filter (·.1 != label)).lookup other = if other = label then none else xs.lookup other := by
  induction xs with
  | nil => simp
  | cons x xs ih =>
    obtain ⟨key, value⟩ := x
    by_cases hkey : key = label
    · rw [List.filter_cons_of_neg (by simp [hkey]), ih]
      by_cases hother : other = label
      · rw [if_pos hother, if_pos hother]
      · have hne : (other == key) = false := beq_eq_false_iff_ne.mpr (hkey ▸ hother)
        rw [if_neg hother, if_neg hother, List.lookup_cons, hne]
    · rw [List.filter_cons_of_pos (by simp [hkey]), List.lookup_cons, List.lookup_cons, ih]
      by_cases hother : other = key
      · simp [hother, hkey]
      · have hne : (other == key) = false := beq_eq_false_iff_ne.mpr hother
        rw [hne]

theorem timer?_start :
    (m.start label now metadata).timer? other =
      if other = label then some ⟨now, metadata⟩ else m.timer? other := by
  by_cases h : other = label
  · simp [timer?, start, h]
  · have hne : (other == label) = false := beq_eq_false_iff_ne.mpr h
    simp [timer?, start, List.lookup_cons, lookup_filter, h, hne]

theorem timer?_stop :
    (m.stop label).timer? other = if other = label then none else m.timer? other :=
  lookup_filter m.timers

@[simp] theorem count_start : (m.start label now metadata).count other = m.count other := rfl

@[simp] theorem count_stop : (m.stop label).count other = m.count other := rfl

@[simp] theorem timer?_increment : (m.increment label).timer? other = m.timer? other := rfl

@[simp] theorem timer?_resetCount : (m.resetCount label).timer? other = m.timer? other := rfl

theorem count_increment :
    (m.increment label).count other =
      if other = label then m.count label + 1 else m.count other := by
  by_cases h : other = label
  · simp [count, increment, h]
  · have hne : (other == label) = false := beq_eq_false_iff_ne.mpr h
    simp [count, increment, List.lookup_cons, lookup_filter, h, hne]

theorem count_resetCount :
    (m.resetCount label).count other = if other = label then 0 else m.count other := by
  rw [count, resetCount, lookup_filter]
  split <;> rfl

end Meters

/-! ## Computations of a logger -/

theorem Logging.updateMeters_id (g : Logging) (family : Nat) :
    (g.updateMeters family fun m => m) = g := by
  simp [updateMeters]

theorem Logging.updateMeters_ite (g : Logging) (family : Nat) (p : Bool) (f : Meters → Meters) :
    (g.updateMeters family fun m => if p then f m else m) =
      if p then g.updateMeters family f else g := by
  cases p with
  | false => exact g.updateMeters_id family
  | true => rfl

/-- What is answered and left where failures are handled. -/
theorem LogM.run_tryCatch {α : Type} (c : LogM α) (handler : LogError → LogM α) (g : Logging) :
    (tryCatch c handler).run g = match c.run g with
      | (.ok a, g) => (.ok a, g)
      | (.error e, g) => (handler e).run g := by
  unfold ExceptT.run
  simp only [tryCatch, tryCatchThe, MonadExceptOf.tryCatch, ExceptT.tryCatch, ExceptT.mk, bind,
    StateT.bind]
  rcases c g with ⟨_ | _, _⟩ <;> rfl

namespace Settings

/-- Settings with neither filter nor transformer. -/
structure IsPlain (s : Settings) : Prop where
  entryFilter : s.entryFilter = none
  entryTransformer : s.entryTransformer = none

end Settings

/-- A computation answers with a value if it can, and else it fails at a numeral. -/
structure Settles {α : Type} (can : Prop) (answer : Except LogError α) (a : α) : Prop where
  ok : can → answer = .ok a
  error : ¬ can → answer = .error (.numeral ⟨⟩)

namespace Logger

variable {α : Type} {l : Logger} {s : Settings} {g : Logging} {level : Level} {label : Text}

/-- Entries of the level are held back, or the stamp in the logger's context and the location of
the call can be read, and the location can be shown. -/
def CanTell (l : Logger) (s : Settings) (level : Level) : Prop :=
  s.shouldLog level → ∃ reading location, StampReading.ofMetadata l.context.metadata = .ok reading ∧
    l.stack.located s 0 reading = .ok location ∧ location.IsShowable

/-- A line below the level of errors and without metadata can be told or fails at a numeral. -/
theorem emit_settles (hplain : s.IsPlain) (hlevel : level ≠ .error) (message : Text) (data : Value)
    (a : α) :
    Settles (l.CanTell s level) ((l.emit s level message data .null).result.map fun _ => a) a := by
  by_cases hpasses : s.shouldLog level
  · rw [emit_result hplain.entryFilter hplain.entryTransformer hpasses]
    have htraced : l.stack.traced s 0 level = .ok none := if_neg fun h => hlevel h.1
    constructor
    · intro hcan
      obtain ⟨reading, location, hreading, hlocation, hshow⟩ := hcan hpasses
      have htold : l.told s level message data .null =
          .ok (l.context.entry level message data location none) :=
        told_eq_ok_iff.mpr ⟨reading, location, none, hreading, hlocation, htraced, rfl⟩
      have hshow' : (l.context.entry level message data location none).location.IsShowable :=
        (location.isShowable_withComponent_iff l.context).mpr hshow
      rw [htold]
      dsimp only
      rw [if_pos hshow']
      rfl
    · intro hcannot
      cases htold : l.told s level message data .null with
      | error e => rfl
      | ok entry =>
        obtain ⟨reading, location, _, hreading, hlocation, -, rfl⟩ := told_eq_ok_iff.mp htold
        have hhidden : ¬ (location.withComponent l.context).IsShowable := fun hshow =>
          hcannot fun _ => ⟨reading, location, hreading, hlocation,
            (location.isShowable_withComponent_iff l.context).mp hshow⟩
        exact congrArg (Except.map fun _ => a) (if_neg hhidden)
  · constructor
    · intro _
      rw [emit, if_neg hpasses]
      rfl
    · intro hcannot
      exact absurd (fun h => absurd h hpasses) hcannot

/-- A line is logged, and what is answered does not depend on it unless it fails. -/
theorem write_run (message : Text) (data : Value) (a : α) :
    (do let _ ← l.write level message data .null; return a : LogM α).run g =
      ((l.emit (l.settingsIn g) level message data .null).result.map fun _ => a,
        g.add (l.emit (l.settingsIn g) level message data .null)) := by
  show (match ((l.emit (l.settingsIn g) level message data .null).result,
    g.add (l.emit (l.settingsIn g) level message data .null)) with
    | (x, g) => (ExceptT.bindCont (fun _ => pure a) x : StateM Logging (Except LogError α)) g) = _
  cases (l.emit (l.settingsIn g) level message data .null).result <;> rfl

theorem startTimer_run (l : Logger) (g : Logging) (label : Text) (metadata : Value) :
    (l.startTimer label metadata).run g =
      (.ok (), g.updateMeters l.family fun m =>
        if (l.settingsIn g).performance then m.start label g.clock metadata else m) := by
  rw [Logging.updateMeters_ite]
  show (if (l.settingsIn g).performance then
    set (g.updateMeters l.family fun m => m.start label g.clock metadata) else pure () :
      LogM Unit).run g = _
  split <;> rfl

/-- Where timers run, stopping one tells what it has measured, or that there was none. -/
theorem stopTimer_run (hplain : (l.settingsIn g).IsPlain) (label : Text) :
    ∃ answer g', (l.stopTimer label).run g = (answer, g') ∧ g'.active = g.active ∧
      g'.meters = (g.updateMeters l.family fun m =>
        if (l.settingsIn g).performance then m.stop label else m).meters ∧
      if (l.settingsIn g).performance then
        match (g.meters l.family).measurement? label g.clock with
        | none => Settles (l.CanTell (l.settingsIn g) .warn) answer none
        | some m => Settles (l.CanTell (l.settingsIn g) .debug) answer (some m)
      else answer = .ok none := by
  rw [Logging.updateMeters_ite, stopTimer, run_bind]
  show ∃ answer g', (if (l.settingsIn g).performance then _ else _ :
    LogM (Option Measurement)).run g = _ ∧ _
  by_cases h : (l.settingsIn g).performance
  · simp only [if_pos h]
    cases hm : (g.meters l.family).measurement? label g.clock with
    | none => exact ⟨_, _, write_run _ _ _, rfl, rfl, emit_settles hplain (by decide) _ _ _⟩
    | some m => exact ⟨_, _, write_run _ _ _, rfl, rfl, emit_settles hplain (by decide) _ _ _⟩
  · simp only [if_neg h]
    exact ⟨_, _, rfl, rfl, rfl, rfl⟩

theorem measure_run (body : LogM α) :
    (l.measure label body).run g =
      match body.run ((l.startTimer label .null).run g).2 with
      | (outcome, g) =>
        match (l.stopTimer label).run g with
        | (.ok _, g) => (outcome, g)
        | (.error e, g) => (.error e, g) := by
  rw [measure, run_bind, startTimer_run]
  generalize (g.updateMeters l.family fun m =>
    if (l.settingsIn g).performance then m.start label g.clock .null else m) = started
  dsimp only
  rw [run_bind]
  have hbody : (ExceptT.lift (ExceptT.run body) : LogM (Except LogError α)).run started =
      (.ok (body.run started).1, (body.run started).2) := rfl
  rw [hbody]
  rcases body.run started with ⟨outcome, ended⟩
  dsimp only
  rw [run_bind]
  rcases (l.stopTimer label).run ended with ⟨_ | _, _⟩
  · rfl
  · cases outcome <;> rfl

/-- The count goes up whether it can be told or not. -/
theorem count_run (hplain : (l.settingsIn g).IsPlain) (label : Text) :
    ∃ answer e, (l.count label).run g =
        (answer, (g.updateMeters l.family fun m => m.increment label).add e) ∧
      Settles (Text.isWritable ((g.meters l.family).count label + 1) = true ∧
        l.CanTell (l.settingsIn g) .debug) answer ((g.meters l.family).count label + 1) := by
  let g' := g.updateMeters l.family fun m => m.increment label
  let n := (g'.meters l.family).count label
  have hn : n = (g.meters l.family).count label + 1 := by
    simp [n, g', Logging.updateMeters, Meters.count_increment]
  have hcast : ((g.meters l.family).count label + 1 : Int) = n := by omega
  have hrun : (l.count label).run g =
      ((liftM ((Text.ofInt? n).mapError LogError.numeral) : LogM Text) >>= fun numeral => do
        let _ ← l.write .debug (label ++ ": ".toList ++ numeral) .null .null
        return n).run g' := rfl
  rw [hrun, ← hn, hcast, run_bind, Text.ofInt?]
  by_cases hwritable : Text.isWritable n = true
  · rw [if_pos hwritable]
    have hdebug : Level.debug ≠ .error := by decide
    obtain ⟨hcan, hcannot⟩ := emit_settles hplain hdebug
      (label ++ ": ".toList ++ Text.ofInt n) .null n
    exact ⟨_, _, write_run _ _ _, fun h => hcan h.2, fun h => hcannot fun h' => h ⟨hwritable, h'⟩⟩
  · rw [if_neg hwritable]
    refine ⟨.error (.numeral ⟨⟩), .held .none, ?_, fun h => absurd h.1 hwritable, fun _ => rfl⟩
    show (_, g') = (_, g'.add _)
    simp [Logging.add, Emission.held, Captures.none]

end Logger
end SourceStamp
