import SourceStamp.Text.Basic

/-!
# Text builders

A builder gathers the parts of a text and joins them once. Empty parts are not kept, so its size
counts the parts that show.
-/

namespace SourceStamp.Text

/-- The parts of a text under construction, the last one first (`StringBuilder`). -/
structure Builder where
  /-- The parts, the last one first; none is empty. -/
  reversedParts : List Text
  deriving DecidableEq, Repr

namespace Builder

/-- The builder of the empty text. -/
def empty : Builder := ⟨[]⟩

/-- Adds a part at the end; an empty part adds nothing (`StringBuilder.append`). -/
def append (b : Builder) (part : Text) : Builder :=
  if part.isEmpty then b else ⟨part :: b.reversedParts⟩

/-- The number of parts (`StringBuilder.__len__`). -/
def size (b : Builder) : Nat := b.reversedParts.length

/-- The parts joined (`StringBuilder.build`). -/
def build (b : Builder) : Text := b.reversedParts.reverse.flatten

@[simp] theorem build_empty : empty.build = [] := rfl

@[simp] theorem build_append (b : Builder) (part : Text) :
    (b.append part).build = b.build ++ part := by
  unfold append
  split
  · next h => simp [List.isEmpty_iff.1 h]
  · simp [build]

end Builder
end SourceStamp.Text
