import SourceStamp.Command.Invocation
import SourceStamp.Command.Trace
import SourceStamp.Command.Transformation

/-!
# Running command lines

- `Command.run`: the outcome of a command on the files that there are.
- `runProgram`: the outcome of a command line.
-/

namespace SourceStamp

/-- The outcome of a command on a machine with the given directories (`_cmd_transform`,
`_cmd_parse_stack`, `_cmd_resolve_stack`). -/
def Command.run (d : InternalDirectories) (fs : FileSystem) (input : Bytes) (verbose : Bool) :
    Command → Except RunError Outcome
  | transform paths selection write => .ok (runTransform fs verbose paths selection write)
  | parseStack file =>
    runOnTrace fs input file fun t => (Frame.parseAll t).map fun fs => .list (fs.map Frame.report)
  | resolveStack _ none => .error .withheldSkip
  | resolveStack file (some skip) =>
    runOnTrace fs input file fun t =>
      ((FramePolicy.standard d).caller (Int.ofNat skip) t).map SourceLocation.report

/-- How the program is used. -/
def usage : Text :=
  ("usage: rastro [-h] [--version] [-v] COMMAND ...\n" ++
    "  transform PATH... [--write] [--include RE] [--exclude RE]\n" ++
    "  parse-stack [FILE]\n" ++
    "  resolve-stack [FILE] [--skip N]\n").toList

/-- The version of the program. -/
def version : Text := "rastro 0.1.0\n".toList

/-- The outcome of what a command line asks for. -/
def Invocation.run (d : InternalDirectories) (fs : FileSystem) (input : Bytes) :
    Invocation → Except RunError Outcome
  | help => .ok ⟨usage, [], false, fs⟩
  | version => .ok ⟨SourceStamp.version, [], false, fs⟩
  | command verbose c => c.run d fs input verbose

/-- The outcome of a command line (`main`). -/
def runProgram (d : InternalDirectories) (fs : FileSystem) (input : Bytes) (words : List Text) :
    Except RunError Outcome :=
  match Invocation.ofTexts words with
  | .error e => .error (.usage e)
  | .ok i => i.run d fs input

end SourceStamp
