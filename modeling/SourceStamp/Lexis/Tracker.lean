import SourceStamp.Lexis.Scanner

/-!
# The tracker

A tracker answers many questions about the states of one source text. It goes on from where its
last answer stopped, and goes back to a remembered checkpoint when asked about an earlier offset.
-/

namespace SourceStamp

/-- A running scanner over a source text, with the checkpoints met so far (`LexTracker`). -/
structure Tracker where
  /-- The source text. -/
  source : Text
  /-- The running scanner. -/
  scanner : Scanner
  /-- The checkpoint farthest along the text. -/
  newest : Checkpoint
  /-- The checkpoints before it, from later to earlier. -/
  older : List Checkpoint
  deriving DecidableEq, Repr

namespace Tracker

/-- The tracker of a source text before any question. -/
def ofSource (source : Text) : Tracker := ⟨source, .start source, ⟨0, .code⟩, []⟩

/-- The checkpoints, from later to earlier. -/
def checkpoints (t : Tracker) : List Checkpoint := t.newest :: t.older

/-- The last checkpoint that does not lie behind the offset. A negative offset has none and gets
the newest checkpoint. -/
def checkpointFor (t : Tracker) (offset : Int) : Checkpoint :=
  (t.checkpoints.find? (fun c => decide ((c.position : Int) ≤ offset))).getD t.newest

/-- Remembers the position of the running scanner as a checkpoint, if it lies past the newest. -/
def remember (t : Tracker) : Tracker :=
  if t.newest.position < t.scanner.position then
    { t with newest := ⟨t.scanner.position, t.scanner.state⟩, older := t.newest :: t.older }
  else t

/-- The tracker after a question about an offset: its scanner has advanced to the offset, from its
own position or, when the offset lies behind that, from a checkpoint. -/
def seek (t : Tracker) (offset : Int) : Tracker :=
  -- an earlier offset is reached again from a checkpoint, and nothing is remembered on the way
  if offset < t.scanner.position then
    { t with
      scanner := (Scanner.ofCheckpoint t.source (t.checkpointFor offset)).advanceTo offset.toNat }
  else
    let t := t.remember
    { t with scanner := t.scanner.advanceTo offset.toNat }

/-- The state at an offset, and the tracker for the next question (`LexTracker.state_at`). -/
def stateAt (t : Tracker) (offset : Int) : LexicalState × Tracker :=
  let t := t.seek offset
  (t.scanner.state, t)

/-- The answers to a sequence of questions. -/
def statesAt (t : Tracker) : List Int → List LexicalState
  | [] => []
  | offset :: rest =>
    let (state, t) := t.stateAt offset
    state :: t.statesAt rest

end Tracker
end SourceStamp
