import SourceStamp.Lexis.Scanner
import SourceStamp.Text.Blank

/-!
# Argument lists

The arguments of a call, seen through brackets and commas rather than parsed.

- `ArgumentList.find`: the text between an opening parenthesis and the one that closes it.
- `ArgumentLayout.ofText`: how a text of arguments is laid out: the commas outside all brackets, the
  number of arguments, whether a comma ends the list, and the arguments that are object literals.

Characters in comments, and blanks, are passed over. Those in strings and templates count as part of
an argument, but not as brackets or commas.
-/

namespace SourceStamp

open Text (isBlank)

/-- An object literal that is one whole argument (`ObjectArgument`). Offsets are those of the source
text. -/
structure ObjectLiteral where
  /-- The offset of the opening brace. -/
  openBrace : Int
  /-- The offset of the closing brace. -/
  closeBrace : Int
  /-- The offset after the last character inside the braces that is neither blank nor comment. -/
  contentEnd : Int
  /-- Whether only blanks and comments stand between the braces. -/
  isEmpty : Bool
  /-- Whether that last character is a comma. -/
  endsWithComma : Bool
  deriving DecidableEq, Repr

/-- How an argument list is laid out (`ArgumentShape`). Offsets are those of the source text. -/
structure ArgumentLayout where
  /-- Whether the list holds only blanks and comments. -/
  isEmpty : Bool
  /-- The offsets of the commas outside all brackets. -/
  commas : List Int
  /-- The number of arguments; a comma at the end of the list adds none. -/
  count : Nat
  /-- Whether the list ends with a comma. -/
  trailing : Bool
  /-- The object literals that are whole arguments, in order. -/
  objects : List ObjectLiteral
  deriving DecidableEq, Repr

/-- The last object literal that is a whole argument (`ArgumentShape.last_object`). -/
def ArgumentLayout.lastObject? (l : ArgumentLayout) : Option ObjectLiteral := l.objects.getLast?

/-- The argument list of a call (`ArgumentSpan`). -/
structure ArgumentList where
  /-- The offset of the opening parenthesis. -/
  openParen : Int
  /-- The offset of the closing parenthesis, if there is one. -/
  closeParen : Option Int
  /-- The text after the opening parenthesis, up to the closing one or to the end of the source. -/
  text : Text
  deriving DecidableEq, Repr

/-- The offset of the first closing parenthesis in code that closes none opened after the scanner's
position, when `depth` parentheses are open there. -/
def closingParen (depth : Nat) (s : Scanner) : Option Nat :=
  match _h : s.rest with
  | [] => none
  | c :: _ =>
    if s.state ≠ .code then closingParen depth s.step
    else if c = '(' then closingParen (depth + 1) s.step
    else if c = ')' then
      match depth with
      | 0 => some s.position
      | d + 1 => closingParen d s.step
    else closingParen depth s.step
termination_by s.rest.length
decreasing_by all_goals exact Scanner.rest_step_lt (by simp [_h])

/-- The argument list after an opening parenthesis in code at the given offset
(`find_argument_span`). -/
def ArgumentList.find (source : Text) (openParen : Int) : ArgumentList :=
  let start := (openParen + 1).toNat
  let after := source.drop start
  match closingParen 0 (Scanner.ofCheckpoint source ⟨start, .code⟩) with
  | some close => ⟨openParen, some close, after.take (close - start)⟩
  | none => ⟨openParen, none, after⟩

/-- A pair of braces outside all other brackets, by offsets in the text of the arguments. -/
structure BracePair where
  /-- The offset of the opening brace. -/
  opened : Nat
  /-- The offset of the closing brace. -/
  closed : Nat
  /-- The offset of the last significant character before the closing brace. -/
  lastInside : Nat
  /-- Whether that character is a comma inside the braces. -/
  endsWithComma : Bool
  deriving DecidableEq, Repr

/-- What is known of an argument list up to some offset. The lists hold the latest element first. -/
structure Outline where
  /-- The offsets of the commas outside all brackets. -/
  commas : List Nat
  /-- The brace pairs outside all other brackets. -/
  braces : List BracePair
  /-- The open brackets with their offsets, the innermost first. -/
  openBrackets : List (Char × Nat)
  /-- The offsets of the significant characters outside all brackets, commas excluded. -/
  marks : List Nat
  /-- The last character that is neither blank nor in a comment, with its offset. -/
  last : Option (Nat × Char)
  deriving DecidableEq, Repr

namespace Outline

/-- Nothing is known yet. -/
def empty : Outline := ⟨[], [], [], [], none⟩

/-- Whether a character opens a bracket (`_OPENERS`). -/
def isOpener (c : Char) : Bool := c == '(' || c == '[' || c == '{'

/-- Whether a character closes a bracket (`_CLOSERS`). -/
def isCloser (c : Char) : Bool := c == ')' || c == ']' || c == '}'

/-- Whether the visit is of the first character of a comment opener. -/
def opensComment (v : Visit) : Bool :=
  v.char == '/' && (v.next == some '/' || v.next == some '*')

/-- The character marks an argument if it stands outside all brackets. -/
def mark (o : Outline) (v : Visit) : Outline :=
  if o.openBrackets.isEmpty then { o with marks := v.position :: o.marks } else o

/-- The character is the latest significant one. -/
def touch (o : Outline) (v : Visit) : Outline := { o with last := some (v.position, v.char) }

/-- The pair of braces that opened at `opened` and closes at the visit. -/
def bracePair (o : Outline) (opened : Nat) (v : Visit) : BracePair :=
  match o.last with
  | some (position, c) => ⟨opened, v.position, max position opened, position != opened && c == ','⟩
  | none => ⟨opened, v.position, opened, false⟩

/-- A closing bracket closes the innermost open one, of whatever kind. -/
def close (o : Outline) (v : Visit) : Outline :=
  match o.openBrackets with
  | [] => o
  | (opener, opened) :: rest =>
    let o' := { o with openBrackets := rest }
    -- the pair stands outside all other brackets only when this was the last open one
    if opener = '{' ∧ v.char = '}' ∧ rest = [] then
      { o' with braces := o.bracePair opened v :: o.braces }
    else o'

/-- A character of code that is neither blank nor the start of a comment. -/
def addCode (o : Outline) (v : Visit) : Outline :=
  -- whether the character is a mark is judged by the brackets open before it
  let marked := if v.char = ',' then o else o.mark v
  let o' :=
    if isOpener v.char then { marked with openBrackets := (v.char, v.position) :: o.openBrackets }
    else if isCloser v.char then marked.close v
    else if v.char = ',' ∧ o.openBrackets = [] then { marked with commas := v.position :: o.commas }
    else marked
  o'.touch v

/-- The outline after one more visit. -/
def add (o : Outline) (v : Visit) : Outline :=
  if v.state.inComment || isBlank v.char then o
  else if !v.state.isCode then (o.mark v).touch v
  else if opensComment v then o
  else o.addCode v

end Outline

/-- The offsets between the commas around a pair of braces: the first one and the one after the
last. -/
def segmentAround (commas : List Nat) (length : Nat) (b : BracePair) : Nat × Nat :=
  (((commas.filter (· < b.opened)).map (· + 1)).foldl max 0,
    ((commas.filter (b.closed < ·)).foldl min length))

/-- Whether a pair of braces makes up a whole argument: its opening brace is the only mark between
the commas around it. -/
def BracePair.isArgument (o : Outline) (length : Nat) (b : BracePair) : Bool :=
  let (first, stop) := segmentAround o.commas length b
  (o.marks.filter fun m => first ≤ m && m < stop).length == 1

/-- A pair of braces as an argument of the source text, in which the arguments start at `base`. -/
def BracePair.toObject (base : Int) (b : BracePair) : ObjectLiteral where
  openBrace := base + b.opened
  closeBrace := base + b.closed
  contentEnd := base + b.lastInside + 1
  isEmpty := b.lastInside == b.opened
  endsWithComma := b.endsWithComma

/-- The layout that an outline of the whole text shows. -/
def ArgumentLayout.ofOutline (base : Int) (length : Nat) (o : Outline) : ArgumentLayout :=
  match o.last with
  -- nothing significant was seen
  | none => ⟨true, [], 0, false, []⟩
  | some (last, _) =>
    let trailing := o.commas.head? == some last
    { isEmpty := false
      commas := o.commas.reverse.map fun (c : Nat) => base + (c : Int)
      count := if trailing then o.commas.length else o.commas.length + 1
      trailing := trailing
      objects := (o.braces.reverse.filter (·.isArgument o length)).map (·.toObject base) }

/-- The layout of a text of arguments that starts at offset `base` of the source
(`analyze_arguments`). -/
def ArgumentLayout.ofText (base : Int) (text : Text) : ArgumentLayout :=
  ofOutline base text.length ((Scanner.start text).visits.foldl Outline.add .empty)

/-- The layout of an argument list (`ArgumentSpan.shape`). -/
def ArgumentList.layout (l : ArgumentList) : ArgumentLayout :=
  ArgumentLayout.ofText (l.openParen + 1) l.text

end SourceStamp
