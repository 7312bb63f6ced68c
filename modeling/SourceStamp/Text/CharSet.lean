import SourceStamp.Text.Basic

/-!
# Character sets

A set of characters is given by its edges: the ascending code points at which membership changes,
starting outside. A character belongs to the set when an odd number of edges lies at or below it.
-/

namespace SourceStamp.Text

/-- A set of characters, given by the code points at which membership changes. -/
structure CharSet where
  /-- The edges, ascending. -/
  edges : List Nat

namespace CharSet

/-- A character belongs to the set when an odd number of edges lies at or below it. -/
def contains (s : CharSet) (c : Char) : Bool :=
  (s.edges.takeWhile (· ≤ c.toNat)).length % 2 == 1

end CharSet
end SourceStamp.Text
