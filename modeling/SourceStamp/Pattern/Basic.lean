import SourceStamp.Text.Blank
import SourceStamp.Text.Letter
import SourceStamp.Text.Digit

/-!
# Patterns

Regular expressions that are searched for in paths and texts.

- `CharClass`: which characters a pattern takes at one place.
- `Pattern`: the expressions.
- `Pattern.ends`: the places at which a match that starts at a place can end.
- `Pattern.search`: whether a pattern matches somewhere in a text.
-/

namespace SourceStamp

/-- A kind of character that has a letter of its own in patterns. -/
inductive CharKind where
  | digit
  | blank
  | word
  deriving DecidableEq, Repr

/-- Whether a character is of a kind. -/
def CharKind.holds : CharKind → Char → Bool
  | digit => Text.isDecimal
  | blank => Text.isBlank
  | word => Text.isWord

/-- One item of a character class. -/
inductive ClassItem where
  /-- The characters from `low` to `high`. -/
  | range (low high : Char)
  /-- The characters of a kind, or with `isIn` false all others. -/
  | kind (k : CharKind) (isIn : Bool)
  deriving DecidableEq, Repr

/-- Whether an item takes a character. -/
def ClassItem.holds : ClassItem → Char → Bool
  | range low high, c => low ≤ c && c ≤ high
  | kind k isIn, c => k.holds c == isIn

/-- The characters that some item takes or, in a negated class, that none takes. -/
structure CharClass where
  /-- The items. -/
  items : List ClassItem
  /-- Whether the class takes the other characters. -/
  negated : Bool
  deriving DecidableEq, Repr

namespace CharClass

/-- Whether a class takes a character. -/
def holds (k : CharClass) (c : Char) : Bool := k.items.any (·.holds c) != k.negated

/-- The class of one character. -/
def single (c : Char) : CharClass := ⟨[.range c c], false⟩

/-- The class of the given characters. -/
def oneOf (cs : List Char) : CharClass := ⟨cs.map fun c => .range c c, false⟩

/-- All characters but the line feed. -/
def anyInLine : CharClass := ⟨[.range '\n' '\n'], true⟩

end CharClass

/-- A regular expression. -/
inductive Pattern where
  /-- Matches without taking a character. -/
  | empty
  /-- Takes one character of a class. -/
  | char (k : CharClass)
  /-- Matches at the start of the text. -/
  | start
  /-- Matches at the end of the text, and before a line feed there unless it is strict. -/
  | finish (strict : Bool)
  /-- Matches at a word boundary or, with `isAt` false, elsewhere; in an empty text nowhere. -/
  | boundary (isAt : Bool)
  /-- Matches the one and after it the other. -/
  | seq (first second : Pattern)
  /-- Matches the one or the other. -/
  | either (first second : Pattern)
  /-- Matches at least `least` and at most `most` times in a row; without `most` there is no limit.
  -/
  | repeated (p : Pattern) (least : Nat) (most : Option Nat)
  deriving DecidableEq, Repr

/-- A place in a text. -/
structure Place where
  /-- The offset. -/
  offset : Nat
  /-- The character before the place. -/
  before : Option Char
  /-- The text after the place. -/
  rest : Text
  deriving DecidableEq, Repr

/-- The place at the start of a text. -/
def Place.start (t : Text) : Place := ⟨0, none, t⟩

namespace Pattern

/-- The pattern of a text taken literally. -/
def literal : Text → Pattern
  | [] => empty
  | c :: r => seq (char (.single c)) (literal r)

/-- Matches a pattern or nothing. -/
def optional (p : Pattern) : Pattern := repeated p 0 (some 1)

/-- The places reached from one of the given places, each once. -/
def reach (f : Place → List Place) (places : List Place) : List Place :=
  (places.flatMap f).eraseDups

/-- The places reached in exactly `n` rounds. -/
def reachIn (f : Place → List Place) : Nat → List Place → List Place
  | 0, places => places
  | n + 1, places => reachIn f n (reach f places)

/-- The places reached in `n` rounds at most: those seen so far, and those reached from the newest.
-/
def reachWithin (f : Place → List Place) : Nat → List Place → List Place → List Place
  | 0, seen, _ => seen
  | n + 1, seen, newest =>
    match (reach f newest).filter (!seen.contains ·) with
    | [] => seen
    | found => reachWithin f n (seen ++ found) found

/-- The places at which a match that starts at the given place can end. -/
def ends : Pattern → Place → List Place
  | empty, s => [s]
  | char k, s =>
    match s.rest with
    | [] => []
    | c :: r => if k.holds c then [⟨s.offset + 1, some c, r⟩] else []
  | start, s => if s.before.isNone then [s] else []
  | finish strict, s => if s.rest.isEmpty || (!strict && s.rest == ['\n']) then [s] else []
  | boundary isAt, s =>
    let isTextEmpty := s.before.isNone && s.rest.isEmpty
    if Text.isBoundary s.before s.rest.head? == isAt && !isTextEmpty then [s] else []
  | seq p q, s => reach (ends q) (ends p s)
  | either p q, s => (ends p s ++ ends q s).eraseDups
  | repeated p least most, s =>
    let required := reachIn (ends p) least [s]
    let more :=
      match most with
      | some m => m - least
      | none => s.rest.length + 1
    reachWithin (ends p) more required required

/-- Whether a pattern matches at a place. -/
def matchesAt (p : Pattern) (s : Place) : Bool := !(p.ends s).isEmpty

/-- Whether a pattern matches at a place of the text `rest`, whose first place is given by its
offset and the character before it. -/
def searchFrom (p : Pattern) (offset : Nat) (before : Option Char) : Text → Bool
  | [] => p.matchesAt ⟨offset, before, []⟩
  | c :: r => p.matchesAt ⟨offset, before, c :: r⟩ || searchFrom p (offset + 1) (some c) r

/-- Whether a pattern matches somewhere in a text. -/
def search (p : Pattern) (t : Text) : Bool := searchFrom p 0 none t

end Pattern
end SourceStamp
