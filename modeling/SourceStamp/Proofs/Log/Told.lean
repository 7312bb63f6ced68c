import SourceStamp.Proofs.Log.Rendered

/-!
# What is told of a call

The entry of a call is told by its metadata and the stack, whatever was captured before.

- `Capturing.Yields`: what a computation yields whatever was captured before it.
- `StackReader.located`, `StackReader.traced`: the location and the trace that entries get.
- `Entry.create_yields`, `Entry.told_eq_ok_iff`: the entry of a call without the captures on the
  way, and when there is one.
- `Logger.exists_emit_eq`, `Logger.log_result`: what a call of a logger makes of that entry.
-/

namespace SourceStamp

/-! ## Computations that capture the stack -/

/-- One computation after another, where a state outlives failures. -/
theorem run_bind {ε σ α β : Type} (c : ExceptT ε (StateM σ) α) (f : α → ExceptT ε (StateM σ) β)
    (s : σ) :
    (c >>= f).run s = match c.run s with
      | (.ok a, s) => (f a).run s
      | (.error e, s) => (.error e, s) := by
  show (match c.run s with | (x, s) => (ExceptT.bindCont f x) s) = _
  rcases c.run s with ⟨_ | _, _⟩ <;> rfl

namespace Capturing

/-- Whatever was captured before, the computation yields `x`. -/
def Yields {α : Type} (c : Capturing α) (x : Except UnreadableNumeral α) : Prop :=
  ∀ captures, (c.run captures).1 = x

variable {α β : Type}

theorem yields_pure (a : α) : Yields (pure a) (.ok a) := fun _ => rfl

theorem yields_lift (x : Except UnreadableNumeral α) : Yields (liftM x) x := by
  intro captures
  cases x <;> rfl

/-- What two computations one after the other yield. -/
theorem Yields.bind {c : Capturing α} {x : Except UnreadableNumeral α} {f : α → Capturing β}
    {g : α → Except UnreadableNumeral β} (hc : Yields c x) (hf : ∀ a, Yields (f a) (g a)) :
    Yields (c >>= f) (x >>= g) := by
  intro captures
  have hx : x = (c.run captures).1 := (hc captures).symm
  rw [run_bind, hx]
  rcases c.run captures with ⟨_ | a, captures⟩
  · rfl
  · exact hf a captures

end Capturing

open Capturing (Yields yields_pure yields_lift)

/-! ## The entry of a call -/

namespace StackReader

/-- The location that a stamp and the stack tell. -/
def placed (r : StackReader) (skip : Int) : Option StampReading →
    Except UnreadableNumeral SourceLocation
  | none => r.caller skip
  | some i =>
    if i.isComplete then .ok (SourceLocation.empty.withStamp i)
    else do
      let location ← r.caller skip
      return location.withStamp i

/-- The location of an entry, if locations are asked for. -/
def located (r : StackReader) (s : Settings) (skip : Int) (reading : Option StampReading) :
    Except UnreadableNumeral SourceLocation :=
  if s.includesSourcePaths then do
    let location ← r.placed skip reading
    return location.withoutInternalFunction r.policy
  else .ok .empty

/-- The trace of an entry, if traces are asked for. -/
def traced (r : StackReader) (s : Settings) (skip : Int) (level : Level) :
    Except UnreadableNumeral (Option Text) :=
  if level = .error ∧ s.stackTraces then do
    let trace ← r.trace skip
    return some trace
  else .ok none

theorem captureText_yields (r : StackReader) : Yields r.captureText (.ok r.source.text) :=
  fun _ => rfl

theorem captureLocation_yields (r : StackReader) (skip : Int) :
    Yields (r.captureLocation skip) (r.caller skip) :=
  r.captureText_yields.bind fun text => yields_lift (r.policy.caller skip text)

theorem captureTrace_yields (r : StackReader) (skip : Int) :
    Yields (r.captureTrace skip) (r.trace skip) :=
  r.captureText_yields.bind fun text => yields_lift (r.policy.trace skip text)

theorem locate_yields (r : StackReader) (skip : Int) (reading : Option StampReading) :
    Yields (r.locate skip reading) (r.placed skip reading) := by
  cases reading with
  | none => exact r.captureLocation_yields skip
  | some i =>
    rw [locate, placed]
    split
    · exact yields_pure _
    · exact (r.captureLocation_yields skip).bind fun _ => yields_pure _

theorem locateEntry_yields (r : StackReader) (s : Settings) (skip : Int)
    (reading : Option StampReading) :
    Yields (r.locateEntry s skip reading) (r.located s skip reading) := by
  rw [locateEntry, located]
  split
  · exact (r.locate_yields skip reading).bind fun _ => yields_pure _
  · exact yields_pure _

theorem traceEntry_yields (r : StackReader) (s : Settings) (skip : Int) (level : Level) :
    Yields (r.traceEntry s skip level) (r.traced s skip level) := by
  rw [traceEntry, traced]
  split
  · exact (r.captureTrace_yields skip).bind fun _ => yields_pure _
  · exact yields_pure _

end StackReader

/-- The entry of a call, from what its stamp and the stack tell. -/
def Entry.told (s : Settings) (r : StackReader) (skip : Int) (level : Level) (message : Text)
    (data : Value) (c : Context) : Except UnreadableNumeral Entry := do
  let reading ← StampReading.ofMetadata c.metadata
  let location ← r.located s skip reading
  let stackTrace ← r.traced s skip level
  return {
    level, message, data, stackTrace
    location := location.withComponent c
    tags := c.tags
    metadata := c.entryMetadata }

/-- The entry of a call in a context, from the location and the trace that were found. -/
def Context.entry (c : Context) (level : Level) (message : Text) (data : Value)
    (location : SourceLocation) (stackTrace : Option Text) : Entry where
  level := level
  message := message
  data := data
  location := location.withComponent c
  stackTrace := stackTrace
  tags := c.tags
  metadata := c.entryMetadata

theorem Entry.told_eq_ok_iff {s : Settings} {r : StackReader} {skip : Int} {level : Level}
    {message : Text} {data : Value} {c : Context} {e : Entry} :
    Entry.told s r skip level message data c = .ok e ↔
      ∃ reading location stackTrace, StampReading.ofMetadata c.metadata = .ok reading ∧
        r.located s skip reading = .ok location ∧ r.traced s skip level = .ok stackTrace ∧
        e = c.entry level message data location stackTrace := by
  rw [told]
  cases StampReading.ofMetadata c.metadata with
  | error => simp [bind, Except.bind]
  | ok reading =>
    cases hlocated : r.located s skip reading with
    | error => simp [bind, Except.bind, hlocated]
    | ok location =>
      cases r.traced s skip level with
      | error => simp [bind, Except.bind, hlocated]
      | ok stackTrace =>
        simp [bind, Except.bind, pure, Except.pure, hlocated, Context.entry, eq_comm]

theorem Entry.create_yields (s : Settings) (r : StackReader) (skip : Int) (level : Level)
    (message : Text) (data : Value) (c : Context) :
    Yields (Entry.create s r skip level message data c)
      (Entry.told s r skip level message data c) :=
  (yields_lift _).bind fun reading =>
    (r.locateEntry_yields s skip reading).bind fun _ =>
      (r.traceEntry_yields s skip level).bind fun _ => yields_pure _

/-! ## Calls that pass -/

theorem Settings.ne_silent_of_shouldLog {s : Settings} {level : Level} (h : s.shouldLog level) :
    level ≠ .silent := by
  intro hlevel
  simp [Settings.shouldLog, hlevel] at h

namespace Logger

/-- The entry that a call leads to unless something holds it back. -/
def told (l : Logger) (s : Settings) (level : Level) (message : Text) (data metadata : Value) :
    Except UnreadableNumeral Entry :=
  Entry.told s l.stack 0 level message data (l.callContext metadata)

section Passing

variable {l : Logger} {s : Settings} {known : Level} {message : Text} {data : Value}

theorem told_eq_ok_iff {metadata : Value} {e : Entry} :
    l.told s known message data metadata = .ok e ↔
      ∃ reading location stackTrace,
        StampReading.ofMetadata (l.callContext metadata).metadata = .ok reading ∧
        l.stack.located s 0 reading = .ok location ∧ l.stack.traced s 0 known = .ok stackTrace ∧
        e = (l.callContext metadata).entry known message data location stackTrace :=
  Entry.told_eq_ok_iff

/-- What is told of a call of a level that passes is what is emitted. -/
theorem exists_emit_eq (l : Logger) (hpasses : s.shouldLog known) (message : Text)
    (data metadata : Value) :
    ∃ captures, l.emit s known message data metadata =
      match l.told s known message data metadata with
      | .error e => .failed (.numeral e) captures
      | .ok e => .ofEntry s captures e := by
  have hyields := Entry.create_yields s l.stack 0 known message data (l.callContext metadata)
    Captures.none
  rw [← told] at hyields
  rcases hrun : (Entry.create s l.stack 0 known message data (l.callContext metadata)).run
    Captures.none with ⟨outcome, captures⟩
  rw [hrun] at hyields
  refine ⟨captures, ?_⟩
  rw [emit, if_pos hpasses, hrun, ← hyields]
  cases outcome <;> rfl

/-- With neither filter nor transformer, a call of a level that passes leads to the entry that is
told, or fails at a numeral: one that was read, or the line of the entry when it is shown. -/
theorem emit_result (hfilter : s.entryFilter = none) (htransformer : s.entryTransformer = none)
    (hpasses : s.shouldLog known) (metadata : Value) :
    (l.emit s known message data metadata).result =
      match l.told s known message data metadata with
      | .error e => .error (.numeral e)
      | .ok e => if e.location.IsShowable then .ok (some e) else .error (.numeral ⟨⟩) := by
  obtain ⟨captures, hemit⟩ := l.exists_emit_eq hpasses message data metadata
  rw [hemit]
  cases htold : l.told s known message data metadata with
  | error e => rfl
  | ok e =>
    have hknown : e.level = known := by
      obtain ⟨_, _, _, -, -, -, rfl⟩ := told_eq_ok_iff.mp htold
      rfl
    have hlevel : e.level ≠ .silent := hknown ▸ Settings.ne_silent_of_shouldLog hpasses
    simp only [Emission.ofEntry, hfilter, htransformer, Option.all_none, Bool.not_true]
    show (Emission.send s captures e).result = _
    obtain ⟨hsilent, -⟩ | ⟨-, hshow, hsend⟩ | ⟨-, hshow, _, _, -, -, hsend⟩ :=
      Emission.send_cases s captures e
    · exact absurd hsilent hlevel
    · rw [hsend, if_neg hshow]
      rfl
    · rw [hsend, if_pos hshow]

theorem log_result (hfilter : s.entryFilter = none) (htransformer : s.entryTransformer = none)
    {level : Value} (hlevel : Level.parse level = .ok known) (hpasses : s.shouldLog known)
    (metadata : Value) :
    (l.log s level message data metadata).result =
      match l.told s known message data metadata with
      | .error e => .error (.numeral e)
      | .ok e => if e.location.IsShowable then .ok (some e) else .error (.numeral ⟨⟩) := by
  rw [log, hlevel]
  exact emit_result hfilter htransformer hpasses metadata

theorem log_result_eq_some_iff (hfilter : s.entryFilter = none)
    (htransformer : s.entryTransformer = none) {level : Value}
    (hlevel : Level.parse level = .ok known) (hpasses : s.shouldLog known) (metadata : Value)
    {e : Entry} :
    (l.log s level message data metadata).result = .ok (some e) ↔
      l.told s known message data metadata = .ok e ∧ e.location.IsShowable := by
  rw [log_result hfilter htransformer hlevel hpasses]
  cases l.told s known message data metadata with
  | error fault => simp
  | ok told =>
    dsimp only
    split
    · next hshow =>
      refine ⟨?_, fun ⟨htold, _⟩ => by cases htold; rfl⟩
      rintro ⟨⟩
      exact ⟨rfl, hshow⟩
    · next hshow =>
      refine ⟨nofun, ?_⟩
      rintro ⟨⟨⟩, h⟩
      exact absurd h hshow

end Passing

end Logger
end SourceStamp
