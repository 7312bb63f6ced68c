import SourceStamp.Log.Attribution
import SourceStamp.Log.Meters

/-!
# Loggers

- `Logger`: a context, perhaps settings of its own, and a reader of the stack. Loggers derived from
  one another form a family, which shares its timers and counters.
- `Logger.log`: makes an entry and emits it, unless the level, the filter or silence holds it back.
- `Logging`: what loggers act on: the clock, the settings in force, the meters of the families, and
  the records emitted so far.
- `Logger.startTimer`, `Logger.stopTimer`, `Logger.measure`, `Logger.count`: timers and counters.
-/

namespace SourceStamp

/-- What can keep a call of a logger from its end. -/
inductive LogError where
  /-- A level or a transformer's outcome is wrong. -/
  | settings (e : SettingsError)
  /-- Metadata or a trace hold a numeral without a value, or a line or a count is too long to be
  written. -/
  | numeral (e : UnreadableNumeral)
  /-- A transformer left an entry at the level that no record has. -/
  | silentLevel
  /-- The measured function failed. -/
  | callback
  deriving Repr

/-- What is sent to the console. -/
structure ConsoleRecord where
  /-- The number of the level. -/
  severity : Nat
  /-- The rendered entry. -/
  message : Text
  /-- The entry. -/
  entry : Entry
  deriving Repr

/-- The number under which the console files a level (`_STDLIB_LEVELS`). -/
def Level.consoleSeverity? : Level → Option Nat
  | trace => some 5
  | debug => some 10
  | info => some 20
  | warn => some 30
  | error => some 40
  | silent => none

/-- The console record of an entry. The level is looked up first, and entries of the silent level
have no record; then the entry is rendered, which its location may not allow. -/
def ConsoleRecord.ofEntry? (s : Settings) (e : Entry) : Except LogError ConsoleRecord :=
  match e.level.consoleSeverity? with
  | none => .error .silentLevel
  | some severity =>
    match e.rendered s.isDevelopment with
    | .error fault => .error (.numeral fault)
    | .ok message => .ok ⟨severity, message, e⟩

/-- What a call of a logger leads to. -/
structure Emission where
  /-- The entry, none if it was held back, or what went wrong. -/
  result : Except LogError (Option Entry)
  /-- The records sent to the console. -/
  records : List ConsoleRecord
  /-- The captures of the stack. -/
  captures : Captures

namespace Emission

/-- A call that led to nothing. -/
def held (captures : Captures) : Emission := ⟨.ok none, [], captures⟩

/-- A call that failed. -/
def failed (e : LogError) (captures : Captures) : Emission := ⟨.error e, [], captures⟩

/-- Sends an entry to the console. -/
def send (s : Settings) (captures : Captures) (e : Entry) : Emission :=
  match ConsoleRecord.ofEntry? s e with
  | .error fault => failed fault captures
  | .ok record => ⟨.ok (some e), [record], captures⟩

/-- Passes an entry through the filter and the transformer and sends it. -/
def ofEntry (s : Settings) (captures : Captures) (e : Entry) : Emission :=
  if !(s.entryFilter.all fun keep => keep e) then held captures
  else
    match s.entryTransformer with
    | none => send s captures e
    | some transform =>
      match transform e with
      | .error fault => failed (.settings fault) captures
      | .ok e => send s captures e

end Emission

/-- A logger (`Logger`). -/
structure Logger where
  /-- What is known about its entries. -/
  context : Context
  /-- Settings of its own; without them those in force count. -/
  settings : Option Settings
  /-- Where it takes locations and traces from. -/
  stack : StackReader
  /-- The family with which it shares timers and counters. -/
  family : Nat

namespace Logger

/-- The context of a call with the given metadata, which count only if they are an object with
fields. -/
def callContext (l : Logger) (metadata : Value) : Context :=
  match metadata with
  | .object (f :: fs) => l.context.merged (Context.ofMetadata (f :: fs))
  | _ => l.context

/-- Makes and emits the entry of a call of a known level. -/
def emit (l : Logger) (s : Settings) (level : Level) (message : Text) (data metadata : Value) :
    Emission :=
  if s.shouldLog level then
    match (Entry.create s l.stack 0 level message data (l.callContext metadata)).run
        Captures.none with
    | (.error e, captures) => .failed (.numeral e) captures
    | (.ok entry, captures) => .ofEntry s captures entry
  else .held Captures.none

/-- Makes and emits the entry of a call; `level` has to name a level (`Logger.log`). -/
def log (l : Logger) (s : Settings) (level : Value) (message : Text) (data metadata : Value) :
    Emission :=
  match Level.parse level with
  | .error e => .failed (.settings e) Captures.none
  | .ok level => l.emit s level message data metadata

/-- The logger of the same family with a refined context (`Logger.with_context`). -/
def withContext (l : Logger) (c : Context) : Logger := { l with context := l.context.merged c }

/-- The logger of an instance of a component (`Logger.for_component`). Without an id the instance is
named for the component and the time in milliseconds. -/
def forComponent (l : Logger) (name : Text) (id : Option Text) (milliseconds : Int) : Logger :=
  let id := (present? id).getD (name ++ '_' :: Text.ofInt milliseconds)
  l.withContext (Context.ofComponent name id)

/-- The logger with further tags (`Logger.with_tags`). -/
def withTags (l : Logger) (tags : List Text) : Logger := l.withContext (Context.ofTags tags)

/-- The logger with further metadata (`Logger.with_metadata`). -/
def withMetadata (l : Logger) (metadata : Fields) : Logger :=
  l.withContext (Context.ofMetadata metadata)

end Logger

/-- What loggers act on. -/
structure Logging where
  /-- The time. -/
  clock : Ticks
  /-- The settings in force. -/
  active : Settings
  /-- The timers and counters of each family. -/
  meters : Nat → Meters
  /-- The records sent to the console, the last one first. -/
  records : List ConsoleRecord
  /-- The captures of the stack so far. -/
  captures : Captures

namespace Logging

/-- Nothing has happened yet. -/
def start (active : Settings) : Logging := ⟨⟨0⟩, active, fun _ => .empty, [], .none⟩

/-- Time passes. -/
def pass (g : Logging) (ticks : Int) : Logging := { g with clock := ⟨g.clock.count + ticks⟩ }

/-- Changes the meters of a family. -/
def updateMeters (g : Logging) (family : Nat) (f : Meters → Meters) : Logging :=
  { g with meters := fun n => if n = family then f (g.meters n) else g.meters n }

/-- Takes note of an emission. -/
def add (g : Logging) (e : Emission) : Logging :=
  { g with
    records := e.records.reverse ++ g.records
    captures := ⟨g.captures.count + e.captures.count, g.captures.notices ++ e.captures.notices⟩ }

end Logging

/-- A computation of a logger that may fail; what happened before a failure stays. -/
abbrev LogM (α : Type) := ExceptT LogError (StateM Logging) α

namespace Logger

/-- The settings that count for a logger. -/
def settingsIn (l : Logger) (g : Logging) : Settings := l.settings.getD g.active

/-- Takes note of an emission and hands on its entry. -/
def note (e : Emission) : LogM (Option Entry) := do
  modify (·.add e)
  e.result

/-- Logs an entry of a known level (`Logger.trace`, `Logger.debug`, `Logger.info`, `Logger.warn`,
`Logger.error`). -/
def write (l : Logger) (level : Level) (message : Text) (data metadata : Value) :
    LogM (Option Entry) := do
  let g ← get
  note (l.emit (l.settingsIn g) level message data metadata)

/-- Logs an entry; `level` has to name a level (`Logger.log`). -/
def writeNamed (l : Logger) (level : Value) (message : Text) (data metadata : Value) :
    LogM (Option Entry) := do
  let g ← get
  note (l.log (l.settingsIn g) level message data metadata)

/-- Starts a timer, if timers run (`Logger.time`). -/
def startTimer (l : Logger) (label : Text) (metadata : Value) : LogM Unit := do
  let g ← get
  if (l.settingsIn g).performance then
    set (g.updateMeters l.family fun m => m.start label g.clock metadata)

/-- Stops a timer, if timers run, and logs its duration, or a warning if there is no such timer
(`Logger.time_end`). -/
def stopTimer (l : Logger) (label : Text) : LogM (Option Measurement) := do
  let g ← get
  if (l.settingsIn g).performance then
    let measurement := (g.meters l.family).measurement? label g.clock
    set (g.updateMeters l.family fun m => m.stop label)
    match measurement with
    | none =>
      let _ ← l.write .warn ("Timer \"".toList ++ label ++ "\" does not exist".toList) .null .null
      return none
    | some m =>
      let _ ← l.write .debug (label ++ ": ".toList ++ m.duration.rounded ++ "ms".toList)
        m.metadata .null
      return some m
  else return none

/-- Runs a computation under a timer, which is stopped whether the computation fails or not
(`Logger.measure`). If stopping fails, that failure counts. -/
def measure {α : Type} (l : Logger) (label : Text) (body : LogM α) : LogM α := do
  l.startTimer label .null
  -- a failure of the body waits until the timer is stopped
  let outcome ← ExceptT.lift (ExceptT.run body)
  let _ ← l.stopTimer label
  match outcome with
  | .ok a => return a
  | .error e => throw e

/-- Adds one to a counter and logs the count, which has to be written for that even where the line
is held back (`Logger.count`). -/
def count (l : Logger) (label : Text) : LogM Nat := do
  modify fun g => g.updateMeters l.family fun m => m.increment label
  let n := ((← get).meters l.family).count label
  let numeral ← (Text.ofInt? n).mapError LogError.numeral
  let _ ← l.write .debug (label ++ ": ".toList ++ numeral) .null .null
  return n

/-- Sets a counter back (`Logger.count_reset`). -/
def resetCount (l : Logger) (label : Text) : LogM Unit :=
  modify fun g => g.updateMeters l.family fun m => m.resetCount label

/-- Logs an error if a condition does not hold (`Logger.assert_`). -/
def assert (l : Logger) (condition : Value) (message : Text) (data : Value) :
    LogM (Option Entry) :=
  if condition.isTruthy then return none
  else l.write .error ("Assertion failed: ".toList ++ message) data .null

end Logger
end SourceStamp
