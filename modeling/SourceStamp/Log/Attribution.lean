import SourceStamp.Log.Context
import SourceStamp.Settings.Basic
import SourceStamp.Stack.Caller

/-!
# Attribution

Where an entry's call stands: what its stamp tells, and what the stack tells for the rest.

- `Capturing`: a computation that may capture the stack, with a count of the captures.
- `StackReader.locate`: the location of a call. A stamp with file and line is enough; else the stack
  is captured and the stamp laid over what it tells.
- `Entry.create`: the entry of a call. Without source paths neither stamp nor stack is asked.
-/

namespace SourceStamp

/-- The captures of the stack so far. -/
structure Captures where
  /-- How many there were. -/
  count : Nat
  /-- What those that failed had to say. -/
  notices : List Notice
  deriving DecidableEq, Repr

/-- No capture yet. -/
def Captures.none : Captures := ⟨0, []⟩

/-- A computation that may capture the stack and may come upon a numeral without a value. -/
abbrev Capturing (α : Type) := ExceptT UnreadableNumeral (StateM Captures) α

namespace StackReader

/-- Captures the stack. -/
def captureText (r : StackReader) : Capturing Text := do
  modify fun c => ⟨c.count + 1, c.notices ++ r.source.notices⟩
  return r.source.text

/-- Captures the stack and takes the caller's location from it. -/
def captureLocation (r : StackReader) (skip : Int) : Capturing SourceLocation := do
  r.policy.caller skip (← r.captureText)

/-- Captures the stack and takes the caller's trace from it. -/
def captureTrace (r : StackReader) (skip : Int) : Capturing Text := do
  r.policy.trace skip (← r.captureText)

end StackReader

/-- The location of a call with the given stamp (`attribute`). -/
def StackReader.locate (r : StackReader) (skip : Int) (reading : Option StampReading) :
    Capturing SourceLocation :=
  match reading with
  | none => r.captureLocation skip
  | some i =>
    if i.isComplete then return SourceLocation.empty.withStamp i
    else return (← r.captureLocation skip).withStamp i

/-- A location without the name of an internal function (`_drop_internal_function`). -/
def SourceLocation.withoutInternalFunction (l : SourceLocation) (f : FramePolicy) :
    SourceLocation :=
  match present? l.functionName with
  | none => l
  | some name => if f.isInternalFunction (some name) then { l with functionName := none } else l

/-- A location with the component of a context, if the context has one. -/
def SourceLocation.withComponent (l : SourceLocation) (c : Context) : SourceLocation :=
  match present? c.componentName with
  | none => l
  | some name => { l with componentName := some name }

/-- The metadata of an entry: those of its context without the stamp, and with the id of the
component. -/
def Context.entryMetadata (c : Context) : Fields :=
  match present? c.componentId with
  | none => withoutSource c.metadata
  | some id => (withoutSource c.metadata).set "component_id".toList (.text id)

/-- The location of an entry before its context is asked. -/
def StackReader.locateEntry (r : StackReader) (s : Settings) (skip : Int)
    (reading : Option StampReading) : Capturing SourceLocation :=
  if s.includesSourcePaths then do
    let location ← r.locate skip reading
    return location.withoutInternalFunction r.policy
  else return .empty

/-- The stack trace of an entry. Errors carry one if the settings ask for it. -/
def StackReader.traceEntry (r : StackReader) (s : Settings) (skip : Int) (level : Level) :
    Capturing (Option Text) :=
  if level = .error ∧ s.stackTraces then do
    let trace ← r.captureTrace skip
    return some trace
  else return none

/-- The entry of a call (`create_log_entry`). -/
def Entry.create (s : Settings) (r : StackReader) (skip : Int) (level : Level) (message : Text)
    (data : Value) (context : Context) : Capturing Entry := do
  let reading ← (StampReading.ofMetadata context.metadata : Except UnreadableNumeral _)
  let location ← r.locateEntry s skip reading
  let stackTrace ← r.traceEntry s skip level
  return {
    level, message, data, stackTrace
    location := location.withComponent context
    tags := context.tags
    metadata := context.entryMetadata }

end SourceStamp
