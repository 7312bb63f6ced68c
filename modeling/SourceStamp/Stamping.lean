import SourceStamp.Call.Stamp
import SourceStamp.ModulePath
import SourceStamp.Notice

/-!
# Stamping a source text

Every monitored call of a source text receives its stamp.

- `LineIndex.lineOf`: the line that holds an offset, found by bisection among the line feeds.
- `plan`: the edits for a source text, and notices of calls that were passed over.
- `isSkipped`: whether a whole source text is left alone: it holds no marker of a monitored call, or
  it declares a hook itself.
- `stamp`: the stamped text.
-/

namespace SourceStamp

/-- The offsets of the line feeds of a source text, ascending (`_LineIndex`). -/
structure LineIndex where
  /-- The offsets. -/
  newlines : Array Nat
  /-- Each of them lies past those before it. -/
  ascending : newlines.toList.Pairwise (· < ·)
  deriving DecidableEq, Repr

namespace LineIndex

/-- The offsets of the line feeds of a text that starts at `position`. -/
def newlinesFrom (position : Nat) : Text → List Nat
  | [] => []
  | c :: r =>
    if c = '\n' then position :: newlinesFrom (position + 1) r else newlinesFrom (position + 1) r

theorem le_of_mem_newlinesFrom {position n : Nat} {t : Text} (h : n ∈ newlinesFrom position t) :
    position ≤ n := by
  induction t generalizing position with
  | nil => cases h
  | cons c t ih =>
    rw [newlinesFrom] at h
    split at h
    · rcases List.mem_cons.mp h with rfl | h
      · exact Nat.le_refl _
      · exact Nat.le_of_succ_le (ih h)
    · exact Nat.le_of_succ_le (ih h)

theorem newlinesFrom_ascending (position : Nat) (t : Text) :
    (newlinesFrom position t).Pairwise (· < ·) := by
  induction t generalizing position with
  | nil => exact .nil
  | cons c t ih =>
    rw [newlinesFrom]
    split
    · exact .cons (fun _ h => le_of_mem_newlinesFrom h) (ih _)
    · exact ih _

/-- The line index of a source text. -/
def ofSource (source : Text) : LineIndex :=
  ⟨(newlinesFrom 0 source).toArray, newlinesFrom_ascending 0 source⟩

/-- The number of line feeds up to an offset, when it is known to lie between `low` and `high`. The
line feed halfway between them tells which half to go on with. -/
def bisect (index : LineIndex) (offset : Int) (low high : Nat)
    (hhigh : high ≤ index.newlines.size) : Nat :=
  if hlow : low < high then
    let middle := (low + high) / 2
    if offset < index.newlines[middle] then index.bisect offset low middle (by omega)
    else index.bisect offset (middle + 1) high hhigh
  else low
termination_by high - low

/-- The number of the line that holds an offset; the first line is line one (`_LineIndex.line_of`).
A line feed belongs to the line that it ends. -/
def lineOf (index : LineIndex) (offset : Nat) : Nat :=
  index.bisect (offset - 1) 0 index.newlines.size (Nat.le_refl _) + 1

end LineIndex

/-- A source text after its calls were stamped (`TransformResult`). -/
structure Stamping where
  /-- The text. -/
  text : Text
  /-- The edits applied, in order, with offsets of the text before. -/
  edits : List Edit
  deriving DecidableEq, Repr

namespace Stamping

/-- Whether any edit was applied. -/
def changed (r : Stamping) : Bool := !r.edits.isEmpty

/-- A text left alone. -/
def unchanged (source : Text) : Stamping := ⟨source, []⟩

end Stamping

/-- The calls of a source text with their argument lists. -/
def callsWithArguments (names : MonitoredNames) (source : Text) :
    List (MonitoredCall × ArgumentList) :=
  (MonitoredCall.findAll source names).map fun call =>
    (call, ArgumentList.find source call.openParen)

/-- The path that stamps of a file name. -/
def stampedPath (path : Option Text) : Text := (path.map ModulePath.stampName).getD []

/-- The edits that stamp the calls of a source text, in the order of the calls (`Rewriter.plan`).
Their lines are counted in the text, so that none is too long to be written. -/
def plan (names : MonitoredNames) (source : Text) (path : Option Text) : List Edit :=
  let lines := LineIndex.ofSource source
  let file := stampedPath path
  (callsWithArguments names source).filterMap fun (call, list) =>
    Stamp.editFor call.kind list file (lines.lineOf call.start)

/-- Notices of the calls that have no closing parenthesis. -/
def planNotices (names : MonitoredNames) (source : Text) (path : Option Text) : List Notice :=
  let lines := LineIndex.ofSource source
  (callsWithArguments names source).filterMap fun (call, list) =>
    if list.closeParen.isNone then some (.unbalancedCall call.name path (lines.lineOf call.start))
    else none

/-- Whether a source text is left alone as a whole (`Rewriter.should_skip`). -/
def isSkipped (names : MonitoredNames) (source : Text) : Bool :=
  !names.markers.any (Text.occurs · source) || declaresHook source names

/-- The stamped source text (`Rewriter.transform`). -/
def stamp (names : MonitoredNames) (source : Text) (path : Option Text) : Stamping :=
  if isSkipped names source then .unchanged source
  else
    let outcome := Edit.applyAll source (plan names source path)
    ⟨outcome.text, outcome.applied⟩

/-- What there is to say about the stamping of a source text. -/
def stampNotices (names : MonitoredNames) (source : Text) (path : Option Text) : List Notice :=
  if isSkipped names source then [.nothingMonitored path]
  else
    planNotices names source path ++
      (Edit.applyAll source (plan names source path)).dropped.map fun e => .droppedEdit e.position

end SourceStamp
