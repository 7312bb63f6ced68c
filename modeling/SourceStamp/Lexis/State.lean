import SourceStamp.Text.Escape

/-!
# Lexical states

Where a character of a source text stands: in code, in a string, in a template, or in a comment.

- `LexicalState`: the five kinds of place, with the quote of a string and the interpolation depth of
  a template.
- `LexicalState.move`: what one step of the scan does with the next character. The delimiters of two
  characters (both comment openers, the end of a block comment, the opener of an interpolation) are
  consumed whole.

An escape is a backslash right before a character; whether that backslash is itself escaped is not
asked. Braces inside an interpolation are not paired: its first closing brace ends it.
-/

namespace SourceStamp

open Text (singleQuote doubleQuote backslash)

/-- The quote that opens and closes a template. -/
def Text.backtick : Char := '\x60'

open Text (backtick)

/-- Where a character of a source text stands (`LexState`). -/
inductive LexicalState where
  /-- Ordinary code. -/
  | code
  /-- Inside a string opened by `quote`. -/
  | string (quote : Char)
  /-- Inside a template: in its text at depth zero, in an interpolation above. -/
  | template (depth : Nat)
  /-- Inside a comment that the end of the line closes. -/
  | lineComment
  /-- Inside a comment that has a closing delimiter. -/
  | blockComment
  deriving DecidableEq, Repr

namespace LexicalState

/-- Whether identifiers and delimiters count here (`LexState.is_code`). -/
def isCode : LexicalState → Bool
  | code => true
  | _ => false

/-- Whether the place is inside a string or anywhere inside a template (`LexState.in_string`). -/
def inString : LexicalState → Bool
  | string _ | template _ => true
  | _ => false

/-- Whether the place is inside a comment (`LexState.in_comment`). -/
def inComment : LexicalState → Bool
  | lineComment | blockComment => true
  | _ => false

@[simp] theorem isCode_iff {s : LexicalState} : s.isCode = true ↔ s = code := by
  cases s <;> simp [isCode]

/-- The outcome of one step: the state after it, and whether it consumed the second character of a
delimiter as well. -/
structure Move where
  /-- The state after the step. -/
  after : LexicalState
  /-- Whether the following character is consumed too. -/
  takesNext : Bool
  deriving DecidableEq, Repr

/-- One step of the scan: `c` is the next character, `next` the one after it, and `escaped` tells
whether a backslash stands right before `c` (`LexScanner._step`). -/
def move (state : LexicalState) (escaped : Bool) (c : Char) (next : Option Char) : Move :=
  match state with
  | code =>
    if c = '/' ∧ next = some '/' then ⟨lineComment, true⟩
    else if c = '/' ∧ next = some '*' then ⟨blockComment, true⟩
    else if c = doubleQuote ∨ c = singleQuote then ⟨string c, false⟩
    else if c = backtick then ⟨template 0, false⟩
    else ⟨code, false⟩
  | string quote => if c = quote ∧ !escaped then ⟨code, false⟩ else ⟨string quote, false⟩
  | template depth =>
    -- an interpolation opens at every depth, even inside another one
    if c = '$' ∧ next = some '{' ∧ !escaped then ⟨template (depth + 1), true⟩
    else
      match depth with
      | 0 => if c = backtick ∧ !escaped then ⟨code, false⟩ else ⟨template 0, false⟩
      | d + 1 => if c = '}' then ⟨template d, false⟩ else ⟨template (d + 1), false⟩
  | lineComment => if c = '\n' then ⟨code, false⟩ else ⟨lineComment, false⟩
  | blockComment =>
    if c = '*' ∧ next = some '/' then ⟨code, true⟩ else ⟨blockComment, false⟩

/-- A step takes a second character only where there is one. -/
theorem takesNext_isSome {state : LexicalState} {escaped : Bool} {c : Char} {next : Option Char}
    (h : (move state escaped c next).takesNext = true) : next.isSome = true := by
  cases state <;> simp only [move] at h
  all_goals (repeat' split at h)
  all_goals simp_all

end LexicalState
end SourceStamp
