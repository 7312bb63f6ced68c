import SourceStamp.Command.Outcome
import SourceStamp.Stack.Caller
import SourceStamp.Value.Indented

/-!
# Reports on traces

The runs that read a stack trace and show what it tells.

- `Frame.report`, `SourceLocation.report`: a frame and a location as objects.
- `runOnTrace`: the outcome of showing what some function tells about a trace.
-/

namespace SourceStamp

/-- The value of a field that may be missing. -/
def fieldValue {α : Type} (f : α → Value) : Option α → Value
  | some a => f a
  | none => .null

/-- A frame as an object (`StackFrame.to_dict`). -/
def Frame.report (f : Frame) : Value :=
  .object [("function_name".toList, fieldValue .text f.functionName),
    ("file_path".toList, fieldValue .text f.filePath),
    ("file_name".toList, fieldValue .text f.fileName),
    ("line_number".toList, fieldValue (fun n => .int (Int.ofNat n)) f.line),
    ("column_number".toList, fieldValue (fun n => .int (Int.ofNat n)) f.column)]

/-- The name of a provenance. -/
def Provenance.name : Provenance → Text
  | injected => "injected".toList
  | resolved => "resolved".toList

/-- A location as an object. -/
def SourceLocation.report (l : SourceLocation) : Value :=
  .object [("file_path".toList, fieldValue .text l.filePath),
    ("file_name".toList, fieldValue .text l.fileName),
    ("line_number".toList, fieldValue .int l.line),
    ("column_number".toList, fieldValue .int l.column),
    ("function_name".toList, fieldValue .text l.functionName),
    ("component_name".toList, fieldValue .text l.componentName),
    ("full_path".toList, fieldValue .text l.fullPath),
    ("provenance".toList, fieldValue (fun p => .text p.name) l.provenance)]

/-- The text of a trace: of standard input, where no file or a dash is named, else of the file
(`_read_input`). -/
def traceText (fs : FileSystem) (input : Bytes) : Option Text → Except FileError Text
  | none => FileSystem.textOf .utf8 input
  | some ['-'] => FileSystem.textOf .utf8 input
  | some file => fs.readText .utf8 (.ofText file)

/-- The outcome of showing what a function tells about a trace. A trace that cannot be read is
complained about. -/
def runOnTrace (fs : FileSystem) (input : Bytes) (file : Option Text)
    (tell : Text → Except UnreadableNumeral Value) : Except RunError Outcome :=
  match traceText fs input file with
  | .error .nullInPathname => .error .nullInPathname
  | .error e => .ok ⟨[], complaint (file.getD "None".toList) e.message, true, fs⟩
  | .ok t =>
    match tell t with
    | .error e => .error (.numeral e)
    | .ok v => .ok ⟨v.indented 0 ++ ['\n'], [], false, fs⟩

end SourceStamp
