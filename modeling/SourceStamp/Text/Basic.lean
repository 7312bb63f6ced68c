/-!
# Text

A text is a list of characters; every offset and length of the library counts characters.

- `Text.occurs`: whether one text stands somewhere inside another.
- `Text.pieces`: the pieces between separators.
- `Text.replaceAll`: every occurrence of one text replaced, from left to right.
- `Text.sorted`: ascending order by code point.
-/

namespace SourceStamp

/-- Texts are lists of characters, so that offsets are list positions. -/
abbrev Text := List Char

namespace Text

/-- The tails of a text at every offset, the empty one included. -/
def tails : Text → List Text
  | [] => [[]]
  | c :: r => (c :: r) :: tails r

/-- Whether `needle` stands somewhere in the text. -/
def occurs (needle : Text) : Text → Bool
  | [] => needle.isEmpty
  | c :: r => needle.isPrefixOf (c :: r) || occurs needle r

theorem occurs_iff {needle t : Text} : occurs needle t = true ↔ needle <:+: t := by
  induction t with
  | nil => rw [occurs, List.isEmpty_iff, List.infix_nil]
  | cons c r ih =>
    rw [occurs, Bool.or_eq_true, List.isPrefixOf_iff_prefix, ih, List.infix_cons_iff]

/-- The pieces between the characters that satisfy `isSeparator`; there is one more of them than
separators. -/
def pieces (isSeparator : Char → Bool) : Text → List Text
  | [] => [[]]
  | c :: r =>
    if isSeparator c then [] :: pieces isSeparator r
    else
      match pieces isSeparator r with
      | [] => [[c]]
      | piece :: rest => (c :: piece) :: rest

theorem pieces_ne_nil (isSeparator : Char → Bool) (t : Text) : pieces isSeparator t ≠ [] := by
  cases t with
  | nil => simp [pieces]
  | cons c r =>
    simp only [pieces]
    split
    · simp
    · split <;> simp

/-- The piece after the last separator. -/
def lastPiece (isSeparator : Char → Bool) (t : Text) : Text :=
  (pieces isSeparator t).getLast (pieces_ne_nil isSeparator t)

/-- The pieces joined by a separator text. -/
def join (separator : Text) : List Text → Text
  | [] => []
  | [t] => t
  | t :: rest => t ++ separator ++ join separator rest

/-- Every occurrence of `old` replaced by `new`, found from left to right without overlap. An
empty `old` replaces nothing. -/
def replaceAll (old new : Text) (t : Text) : Text :=
  go t.length t
where
  /-- The first argument bounds the number of steps by the length of the text. -/
  go : Nat → Text → Text
    | 0, t => t
    | _ + 1, [] => []
    | n + 1, c :: r =>
      if old.isPrefixOf (c :: r) && !old.isEmpty then new ++ go n ((c :: r).drop old.length)
      else c :: go n r

/-- The text up to the first character that satisfies `stop`. -/
def upTo (stop : Char → Bool) (t : Text) : Text := t.takeWhile (!stop ·)

/-- Whether a text does not come after another one. The first characters that differ decide, by
their code points; a beginning of a text comes before it. -/
def isAtMost : Text → Text → Bool
  | [], _ => true
  | _ :: _, [] => false
  | a :: r, b :: s => if a = b then isAtMost r s else a.toNat < b.toNat

/-- Ascending order by code point. -/
def sorted (ts : List Text) : List Text := ts.mergeSort isAtMost

/-- Each text once, at its first place. -/
def distinct (ts : List Text) : List Text := ts.eraseDups

end Text
end SourceStamp
