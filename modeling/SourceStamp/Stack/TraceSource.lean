import SourceStamp.Notice
import SourceStamp.Stack.Frame

/-!
# Sources of stack traces

Where the text of a stack trace comes from.

- `CallFrame.render`, `renderStack`: the frames of a running program as a trace in the keyword form.
- `captureStack?`: that trace, unless a number in it is too long to be written.
- `TraceSource`: a given text, a stack of frames, or a source that fails.
- `TraceSource.text`: the text that a source yields; a failing one yields the empty text and a
  notice.
-/

namespace SourceStamp

/-- A frame of a running program. -/
structure CallFrame where
  /-- The file of the code. -/
  file : Text
  /-- The name of the function with the classes around it. -/
  qualifiedName : Text
  /-- The line that runs, if known. -/
  line : Option Int
  /-- The offset of the running instruction, two units to an instruction; negative before the
  first. -/
  instruction : Int
  /-- The first column of each instruction, counted from zero, where known. -/
  columns : List (Option Int)
  deriving DecidableEq, Repr

namespace CallFrame

/-- The column that runs, counted from one, if it is known (`_column`). -/
def column? (f : CallFrame) : Option Int :=
  if f.instruction < 0 then none
  else ((f.columns[f.instruction.toNat / 2]?).join).map (· + 1)

/-- The file with the line and column as far as they are known; without a line no column. -/
def location (f : CallFrame) : Text :=
  match f.line with
  | none => f.file
  | some line =>
    f.file ++ ':' :: Text.ofInt line ++
      (match f.column? with
        | none => []
        | some column => ':' :: Text.ofInt column)

/-- The line of a trace that names the frame (`format_frame`). -/
def render (f : CallFrame) : Text :=
  "    at ".toList ++ f.qualifiedName ++ " (".toList ++ f.location ++ ")".toList

/-- Whether the line and column can be written as far as they are shown. -/
def isWritable (f : CallFrame) : Bool :=
  f.line.all fun line => Text.isWritable line && f.column?.all Text.isWritable

end CallFrame

/-- The frames of a stack that a trace shows: with a limit only so many. -/
def shownFrames (stack : List CallFrame) (limit : Option Int) : List CallFrame :=
  match limit with
  | none => stack
  | some n => stack.take n.toNat

/-- The trace of a stack, innermost frame first, after a header line. -/
def renderStack (stack : List CallFrame) (limit : Option Int) : Text :=
  "Error".toList ++ (shownFrames stack limit).flatMap fun f => '\n' :: f.render

/-- The trace of a stack, unless a number of a shown frame cannot be written (`capture_stack`). -/
def captureStack? (stack : List CallFrame) (limit : Option Int) : Option Text :=
  if (shownFrames stack limit).all CallFrame.isWritable then some (renderStack stack limit) else none

/-- Where the text of a stack trace comes from. -/
inductive TraceSource where
  /-- A text, or none. -/
  | given (text : Option Text)
  /-- The stack of a running program. -/
  | running (stack : List CallFrame)
  /-- A source that fails for a reason. -/
  | failing (reason : Text)
  deriving DecidableEq, Repr

namespace TraceSource

/-- The text that a source yields. -/
def text : TraceSource → Text
  | given t => t.getD []
  | running stack => (captureStack? stack none).getD []
  | failing _ => []

/-- What a source has to say about its failure. -/
def notices : TraceSource → List Notice
  | given _ => []
  | running stack =>
    if (captureStack? stack none).isSome then [] else [.captureFailed Text.unwritableReason]
  | failing reason => [.captureFailed reason]

end TraceSource
end SourceStamp
