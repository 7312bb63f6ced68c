import SourceStamp.Text.Builder

/-!
# Edits

An edit replaces a stretch of a source text. All edits speak of offsets of the same unchanged text.

- `Edit.applyAll`: the text after the edits, applied in one pass in order of position.
- An edit that starts before the end of an earlier one, or ends past the text, is dropped.
-/

namespace SourceStamp

/-- Replaces `deleteLength` characters at `position` by `insertText` (`Edit`). -/
structure Edit where
  /-- The offset of the first replaced character. -/
  position : Int
  /-- The number of replaced characters. -/
  deleteLength : Int
  /-- The text put in their place. -/
  insertText : Text
  deriving DecidableEq, Repr

namespace Edit

/-- The offset after the replaced characters (`Edit.end`). -/
def stop (e : Edit) : Int := e.position + e.deleteLength

/-- The edit that puts a text at an offset (`Edit.insert`). -/
def insert (position : Int) (text : Text) : Edit := ⟨position, 0, text⟩

/-- The edit that replaces the characters from one offset up to another (`Edit.replace`). -/
def replace (start stop : Int) (text : Text) : Edit := ⟨start, stop - start, text⟩

@[simp] theorem stop_insert (position : Int) (text : Text) :
    (insert position text).stop = position := by
  simp [insert, stop]

@[simp] theorem stop_replace (start stop : Int) (text : Text) :
    (replace start stop text).stop = stop := by
  simp only [replace, Edit.stop]
  omega

/-- The index that an offset denotes: a negative one counts from the end, and none leaves the
text. -/
def index (length : Nat) (offset : Int) : Nat :=
  if offset < 0 then (offset + length).toNat else min offset.toNat length

/-- The characters from one offset up to another. -/
def slice (t : Text) (start stop : Int) : Text :=
  let first := index t.length start
  (t.drop first).take (index t.length stop - first)

/-- Progress of one pass over a source text. -/
structure Pass where
  /-- The text so far. -/
  output : Text.Builder
  /-- The edits applied, the last one first. -/
  applied : List Edit
  /-- The edits dropped, the last one first. -/
  dropped : List Edit
  /-- The offset up to which the source text is dealt with. -/
  cursor : Int
  deriving DecidableEq, Repr

namespace Pass

/-- Nothing is done yet. -/
def start : Pass := ⟨.empty, [], [], 0⟩

/-- Applies an edit, unless it starts before the cursor or ends past the text. -/
def add (source : Text) (p : Pass) (e : Edit) : Pass :=
  if e.position < p.cursor ∨ (source.length : Int) < e.stop then
    { p with dropped := e :: p.dropped }
  else
    { output := (p.output.append (slice source p.cursor e.position)).append e.insertText
      applied := e :: p.applied
      dropped := p.dropped
      cursor := e.stop }

/-- Adds the text after the last edit. -/
def finish (source : Text) (p : Pass) : Text :=
  (p.output.append (slice source p.cursor source.length)).build

end Pass

/-- The edits in order of position; edits of one position stay in their order. -/
def ordered (edits : List Edit) : List Edit :=
  edits.mergeSort fun a b => decide (a.position ≤ b.position)

/-- What became of a list of edits. -/
structure Outcome where
  /-- The edited text. -/
  text : Text
  /-- The edits applied, in order. -/
  applied : List Edit
  /-- The edits dropped, in order. -/
  dropped : List Edit
  deriving DecidableEq, Repr

/-- Applies edits to the text of which they speak (`apply_edits`). -/
def applyAll (source : Text) (edits : List Edit) : Outcome :=
  let p := (ordered edits).foldl (Pass.add source) Pass.start
  ⟨p.finish source, p.applied.reverse, p.dropped.reverse⟩

end Edit
end SourceStamp
