import SourceStamp.Command.Options
import SourceStamp.Files.Stamping

/-!
# Outcomes of runs

- `Outcome`: what a run prints, whether something failed, and the files afterwards.
- `RunError`: why a run ends without an outcome.
- `complaint`, `noticeLines`: the lines that go to standard error.
-/

namespace SourceStamp

/-- What a run leaves. -/
structure Outcome where
  /-- What goes to standard output. -/
  output : Text
  /-- What goes to standard error. -/
  complaints : Text
  /-- Whether something could not be found or read. -/
  failed : Bool
  /-- The files afterwards. -/
  files : FileSystem

/-- Why a run ends without an outcome. -/
inductive RunError where
  /-- The command line is wrong. -/
  | usage (e : UsageError)
  /-- A trace holds a numeral without a value. -/
  | numeral (e : UnreadableNumeral)
  /-- A null character stands in the pathname of a trace. -/
  | nullInPathname
  /-- The number of frames to skip is withheld. -/
  | withheldSkip
  deriving Repr

/-- The status with which a run ends: one if something failed, else zero (`EXIT_FAILURE`,
`EXIT_OK`). -/
def Outcome.status (o : Outcome) : Nat := if o.failed then 1 else 0

/-- The status with which a run without an outcome ends: two for a wrong command line, else one. -/
def RunError.status : RunError → Nat
  | usage _ => 2
  | _ => 1

/-- How a run's error reads. -/
def RunError.message : RunError → Text
  | usage e => e.message
  | numeral _ => "a line or column number has too many digits".toList
  | nullInPathname => FileError.nullInPathname.message
  | withheldSkip => "no number follows --skip".toList

/-- A line that names the program, what is at fault, and the fault. -/
def complaint (subject fault : Text) : Text :=
  "rastro: ".toList ++ subject ++ ": ".toList ++ fault ++ ['\n']

/-- Notices as lines. -/
def noticeLines (notices : List Notice) : Text :=
  notices.flatMap fun n => n.channel.toList ++ ": ".toList ++ n.message ++ ['\n']

end SourceStamp
