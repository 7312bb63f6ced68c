import SourceStamp.Text.Basic

/-!
# Blanks and lines

- `isBlank`: the whitespace characters, four control separators and the wide spaces included.
- `strip`: a text without the blanks at its two ends.
- `lines`: the lines of a text, without the characters that end them.
-/

namespace SourceStamp.Text

/-- Whitespace: tab to carriage return, the separators U+001C to U+001F, space, and the spaces and
line separators above ASCII. -/
def isBlank (c : Char) : Bool :=
  let n := c.toNat
  (9 ≤ n && n ≤ 13) || (28 ≤ n && n ≤ 32) || n == 0x85 || n == 0xA0 || n == 0x1680 ||
    (0x2000 ≤ n && n ≤ 0x200A) || n == 0x2028 || n == 0x2029 || n == 0x202F || n == 0x205F ||
    n == 0x3000

/-- The text from its first character that is no blank. -/
def stripStart (t : Text) : Text := t.dropWhile isBlank

/-- The text without its last characters that satisfy `p`. -/
def dropEndWhile (p : Char → Bool) (t : Text) : Text := (t.reverse.dropWhile p).reverse

/-- The text without the blanks at both ends. -/
def strip (t : Text) : Text := dropEndWhile isBlank (stripStart t)

/-- The characters that end a line. -/
def isLineBreak (c : Char) : Bool :=
  let n := c.toNat
  (10 ≤ n && n ≤ 13) || (28 ≤ n && n ≤ 30) || n == 0x85 || n == 0x2028 || n == 0x2029

/-- The lines of a text. A carriage return and the line feed after it end one line together, and a
break at the end of the text starts no further line. -/
def lines : Text → List Text
  | [] => []
  | '\r' :: '\n' :: r => [] :: lines r
  | c :: r =>
    if isLineBreak c then [] :: lines r
    else
      match lines r with
      | [] => [[c]]
      | line :: rest => (c :: line) :: rest

/-- A text without a line feed at its very end. -/
def withoutFinalNewline (t : Text) : Text :=
  if t.getLast? = some '\n' then t.dropLast else t

/-- Line ends in their universal form: a carriage return, alone or before a line feed, becomes a
line feed. -/
def universalNewlines : Text → Text
  | [] => []
  | '\r' :: '\n' :: r => '\n' :: universalNewlines r
  | c :: r => (if c = '\r' then '\n' else c) :: universalNewlines r

end SourceStamp.Text
