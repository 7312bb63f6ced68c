import SourceStamp.Command.Outcome

/-!
# Transformations

The run that stamps the files at some paths and below them.

- `targets`: what the paths lead to.
- `Progress.step`: one target after another.
- `runTransform`: the outcome of the whole.

One file that cannot be read does not keep the run from the others: it is named among the
complaints, and the run counts as failed.
-/

namespace SourceStamp

/-- What a path of a transformation leads to. -/
inductive Target where
  /-- Nothing is at the path, which is written so. -/
  | missing (written : Text)
  /-- An accepted file is there or below it. -/
  | file (p : Pathname)
  deriving DecidableEq, Repr

/-- What the paths of a transformation lead to, in order. A file below several of them comes several
times. -/
def targets (fs : FileSystem) (selection : FileSelection) (paths : List Text) : List Target :=
  paths.flatMap fun written =>
    let p := Pathname.ofText written
    if fs.has p then (fs.sourceFiles selection p).map .file else [.missing written]

/-- How a transformation treats its files. -/
structure Treatment where
  /-- Whether changed files are written back. -/
  write : Bool
  /-- Whether texts are shown instead of being counted. -/
  showsText : Bool
  /-- Whether notices are shown. -/
  verbose : Bool
  deriving DecidableEq, Repr

/-- A transformation under way. -/
structure Progress where
  /-- What there is to show so far. -/
  outcome : Outcome
  /-- The number of files visited. -/
  visited : Nat
  /-- The number of files changed. -/
  changed : Nat

namespace Progress

/-- Nothing is done yet. -/
def start (fs : FileSystem) : Progress := ⟨⟨[], [], false, fs⟩, 0, 0⟩

/-- Adds a complaint. -/
def fail (s : Progress) (subject fault : Text) : Progress :=
  { s with
    outcome := { s.outcome with
      complaints := s.outcome.complaints ++ complaint subject fault
      failed := true } }

/-- The line about a changed file. -/
def changeLine (write : Bool) (p : Pathname) (r : Stamping) : Text :=
  (if write then "rewrote ".toList else "would rewrite ".toList) ++ p.text ++ " (".toList ++
    Text.ofNat r.edits.length ++ " edit(s))\n".toList

/-- What is shown about a file that was stamped. -/
def shownOf (t : Treatment) (p : Pathname) (r : Stamping) : Text :=
  if t.showsText then r.text
  else if r.changed then changeLine t.write p r
  else []

/-- Stamps a file, or complains. -/
def visit (names : MonitoredNames) (t : Treatment) (s : Progress) (p : Pathname) : Progress :=
  let s := { s with visited := s.visited + 1 }
  match s.outcome.files.stampFile names .utf8 t.write p with
  | .error e => s.fail p.text e.message
  | .ok done =>
    { s with
      changed := if done.stamping.changed then s.changed + 1 else s.changed
      outcome := { s.outcome with
        output := s.outcome.output ++ shownOf t p done.stamping
        complaints := s.outcome.complaints ++ if t.verbose then noticeLines done.notices else []
        files := done.files } }

/-- Goes on to a target. -/
def step (names : MonitoredNames) (t : Treatment) (s : Progress) : Target → Progress
  | .missing written => s.fail written "no such file or directory".toList
  | .file p => s.visit names t p

/-- The line at the end, which counts the files. -/
def summary (t : Treatment) (s : Progress) : Text :=
  if t.showsText then []
  else
    Text.ofNat s.changed ++ " of ".toList ++ Text.ofNat s.visited ++ " file(s) ".toList ++
      (if t.write then "rewritten\n".toList else "to rewrite\n".toList)

/-- The outcome at the end. -/
def finish (t : Treatment) (s : Progress) : Outcome :=
  { s.outcome with output := s.outcome.output ++ s.summary t }

end Progress

/-- Whether the paths are one path that leads to a file. -/
def isSingleFile (fs : FileSystem) : List Text → Bool
  | [path] => fs.isFile (.ofText path)
  | _ => false

/-- The outcome of stamping the files at some paths and below them (`_cmd_transform`). A single file
that is not to be written back is shown; else the files are counted. -/
def runTransform (fs : FileSystem) (verbose : Bool) (paths : List Text) (selection : FileSelection)
    (write : Bool) : Outcome :=
  let t : Treatment := ⟨write, isSingleFile fs paths && !write, verbose⟩
  ((targets fs selection paths).foldl (Progress.step .standard t) (.start fs)).finish t

end SourceStamp
