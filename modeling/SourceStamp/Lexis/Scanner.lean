import SourceStamp.Lexis.State

/-!
# The scanner

A scanner walks forward over one source text and keeps the lexical state of its position.

- `Scanner.step`: consumes one character, or one delimiter of two characters.
- `Scanner.advanceTo`: steps until an offset is reached or the text ends.
- `Scanner.visits`: the steps of the whole remaining text, each with the state before it.
- `classify`, `classifyFrom`: the state of a source text at an offset, scanned from the start or
  from a checkpoint.
-/

namespace SourceStamp

/-- A position in a source text with its lexical state (`LexScanner`). -/
structure Scanner where
  /-- The offset of the next character to consume. -/
  position : Nat
  /-- The character before the position. -/
  previous : Option Char
  /-- The text from the position on. -/
  rest : Text
  /-- The state after everything before the position. -/
  state : LexicalState
  deriving DecidableEq, Repr

/-- An offset of a source text together with the state known to hold there. -/
structure Checkpoint where
  /-- The offset. -/
  position : Nat
  /-- The state after everything before the offset. -/
  state : LexicalState
  deriving DecidableEq, Repr

/-- One step of a scan, as its observer sees it. -/
structure Visit where
  /-- The offset of the character. -/
  position : Nat
  /-- The character. -/
  char : Char
  /-- The character after it. -/
  next : Option Char
  /-- The state before the character. -/
  state : LexicalState
  deriving DecidableEq, Repr

namespace Scanner

/-- The scanner of a source text at a checkpoint. -/
def ofCheckpoint (source : Text) (c : Checkpoint) : Scanner where
  position := c.position
  previous := if c.position = 0 then none else source[c.position - 1]?
  rest := source.drop c.position
  state := c.state

/-- The scanner at the start of a source text. -/
def start (source : Text) : Scanner := ⟨0, none, source, .code⟩

@[simp] theorem ofCheckpoint_zero (source : Text) :
    ofCheckpoint source ⟨0, .code⟩ = start source := rfl

/-- Whether the next character stands right after a backslash (`LexScanner._escaped`). -/
def escaped (s : Scanner) : Bool := s.previous == some Text.backslash

/-- Consumes one character, or the two of a delimiter (`LexScanner._step`). At the end of the text
nothing happens. -/
def step (s : Scanner) : Scanner :=
  match s.rest with
  | [] => s
  | [c] => ⟨s.position + 1, some c, [], (s.state.move s.escaped c none).after⟩
  | c :: d :: r =>
    let m := s.state.move s.escaped c (some d)
    if m.takesNext then ⟨s.position + 2, some d, r, m.after⟩
    else ⟨s.position + 1, some c, d :: r, m.after⟩

theorem rest_step_lt {s : Scanner} (h : s.rest ≠ []) : s.step.rest.length < s.rest.length := by
  unfold step
  split
  · next hr => exact absurd hr h
  · next hr => simp [hr]
  · next hr =>
    rw [hr]
    simp only []
    split
    · exact Nat.lt_succ_of_lt (Nat.lt_succ_self _)
    · exact Nat.lt_succ_self _

/-- Steps until the position reaches the offset or the text ends (`LexScanner.advance_to`). A
delimiter that straddles the offset is consumed whole. -/
def advanceTo (offset : Nat) (s : Scanner) : Scanner :=
  if _h : s.position < offset ∧ s.rest ≠ [] then advanceTo offset s.step else s
termination_by s.rest.length
decreasing_by exact rest_step_lt _h.2

/-- The steps of the whole remaining text (`LexScanner.iter_states`). The second character of a
delimiter has no visit of its own. -/
def visits (s : Scanner) : List Visit :=
  match _h : s.rest with
  | [] => []
  | c :: r => ⟨s.position, c, r.head?, s.state⟩ :: visits s.step
termination_by s.rest.length
decreasing_by exact rest_step_lt (by simp [_h])

/-- The steps before an offset. -/
def visitsTo (offset : Nat) (s : Scanner) : List Visit :=
  s.visits.takeWhile (·.position < offset)

end Scanner

/-- The lexical state of a source text at an offset: the state after the characters before it
(`classify`). -/
def classify (source : Text) (offset : Int) : LexicalState :=
  ((Scanner.start source).advanceTo offset.toNat).state

/-- The lexical state at an offset, scanned from a checkpoint when that does not lie behind the
offset, else from the start (`classify`). -/
def classifyFrom (source : Text) (c : Checkpoint) (offset : Int) : LexicalState :=
  if c.position ≤ offset then ((Scanner.ofCheckpoint source c).advanceTo offset.toNat).state
  else classify source offset

end SourceStamp
