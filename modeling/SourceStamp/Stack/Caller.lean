import SourceStamp.SourceLocation
import SourceStamp.Stack.TraceSource
import SourceStamp.Stack.Policy

/-!
# The caller

The first frame of a trace that is the user's own code tells where a log call stands.

- `FramePolicy.userFrames`: the frames of a trace that are not internal, with their lines.
- `FramePolicy.caller`: the location that the first of them tells, after some are skipped.
- `FramePolicy.trace`: their lines as a trace.
- `StackReader`: a policy with the source from which it takes its traces.
-/

namespace SourceStamp

/-- The component of a function's name: the capitalised name before a point, or the whole name if it
is capitalised (`derive_component_name`). Names of internal functions have none. -/
def componentOf (policy : FramePolicy) (name : Option Text) : Option Text :=
  if policy.isInternalFunction name then none
  else
    match name with
    | none => none
    | some name =>
      let head := name.takeWhile Char.isAlphanum
      if !head.head?.any Char.isUpper then none
      else if (name.drop head.length).head? = some '.' then some head
      else if Text.withoutFinalNewline name = head then some name
      else none

namespace FramePolicy

/-- The frames of a trace that are not internal, with their lines
(`SourceLocationResolver.user_frames`). -/
def userFrames (f : FramePolicy) (trace : Text) : Except UnreadableNumeral (List (Text × Frame)) :=
  (Frame.parseLines trace).map (·.filter fun l => !f.isInternal l.2.filePath)

/-- The location that a frame tells (`SourceLocationResolver.record_for`). -/
def locationOf (f : FramePolicy) (frame : Frame) : SourceLocation where
  filePath := (present? frame.filePath).map ModulePath.display
  fileName := frame.fileName
  line := frame.line.map Int.ofNat
  column := frame.column.map Int.ofNat
  functionName := frame.functionName
  componentName := componentOf f frame.functionName
  fullPath := frame.filePath
  provenance := some .resolved

theorem locationOf_filePath (f : FramePolicy) {frame : Frame} {path : Text}
    (hpath : frame.filePath = some path) (hne : path ≠ []) :
    (f.locationOf frame).filePath = some (ModulePath.display path) := by
  obtain ⟨c, rest, rfl⟩ := List.exists_cons_of_ne_nil hne
  rw [locationOf, hpath]
  rfl

theorem locationOf_fileName (f : FramePolicy) {frame : Frame} {path : Text}
    (hpath : frame.filePath = some path) (hne : path ≠ []) :
    (f.locationOf frame).fileName = some (ModulePath.fileName path) := by
  obtain ⟨c, rest, rfl⟩ := List.exists_cons_of_ne_nil hne
  show frame.fileName = _
  rw [Frame.fileName, hpath]

/-- The location that the first user frame of a trace tells, after `skip` of them are skipped; the
empty one when none is left or `skip` is negative (`SourceLocationResolver.resolve`). -/
def caller (f : FramePolicy) (skip : Int) (trace : Text) :
    Except UnreadableNumeral SourceLocation :=
  (f.userFrames trace).map fun frames =>
    if skip < 0 then .empty
    else
      match frames[skip.toNat]? with
      | some (_, frame) => f.locationOf frame
      | none => .empty

/-- The lines of the user frames of a trace, without the blanks around them, after some are skipped
(`SourceLocationResolver.stack_trace`). -/
def trace (f : FramePolicy) (skip : Int) (text : Text) : Except UnreadableNumeral Text :=
  (f.userFrames text).map fun frames =>
    Text.join ['\n'] ((frames.drop skip.toNat).map fun l => Text.strip l.1)

end FramePolicy

/-- A policy with the source from which it takes its traces (`SourceLocationResolver`). -/
structure StackReader where
  /-- Where traces come from. -/
  source : TraceSource
  /-- Which frames are not the user's. -/
  policy : FramePolicy
  deriving DecidableEq, Repr

namespace StackReader

/-- The location of the caller. -/
def caller (r : StackReader) (skip : Int) : Except UnreadableNumeral SourceLocation :=
  r.policy.caller skip r.source.text

/-- The trace of the caller. -/
def trace (r : StackReader) (skip : Int) : Except UnreadableNumeral Text :=
  r.policy.trace skip r.source.text

end StackReader
end SourceStamp
