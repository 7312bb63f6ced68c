import SourceStamp.ModulePath
import SourceStamp.Text.Numeral

/-!
# Stack frames

A line of a stack trace names a frame in one of three ways.

```text
    at Foo.bar (src/app.ts:12:4)     keyword form, also  at src/app.ts:12:4
bar@src/app.ts:12:4                  at-sign form
src/app.ts:12:4                      bare form
```

- `Frame.parse`: the frame of a line, tried as the keyword form, the at-sign form and the bare form.
- `Frame.parseAll`: the frames of the lines of a trace.

A line or column number of more digits than a numeral may have is an error.
-/

namespace SourceStamp

open Text (isBlank isDecimal)

/-- A frame of a stack trace (`StackFrame`). -/
structure Frame where
  /-- The function, as the trace prints it. -/
  functionName : Option Text
  /-- The path, as the trace prints it. -/
  filePath : Option Text
  /-- The line, counted from one. -/
  line : Option Nat
  /-- The column, counted from one. -/
  column : Option Nat
  deriving DecidableEq, Repr

namespace Frame

/-- The last segment of the path (`StackFrame.file_name`). -/
def fileName (f : Frame) : Option Text :=
  match f.filePath with
  | none | some [] => none
  | some path => some (ModulePath.fileName path)

/-- A path with the digits of a line number and perhaps of a column number. -/
structure Location where
  /-- The path. -/
  path : Text
  /-- The digits of the line number. -/
  line : Text
  /-- The digits of the column number. -/
  column : Option Text
  deriving DecidableEq, Repr

/-- A colon and digits at the start of a text: the digits and the text after them. -/
def colonDigits? : Text → Option (Text × Text)
  | [] => none
  | c :: r =>
    let digits := r.takeWhile isDecimal
    if c = ':' ∧ digits ≠ [] then some (digits, r.dropWhile isDecimal) else none

/-- Whether nothing follows but perhaps a closing parenthesis. -/
def isClosed (t : Text) : Bool := t.isEmpty || t == [')']

/-- The digits of a text `:line` or `:line:column`, after which a closing parenthesis may stand. -/
def looseNumbers? (t : Text) : Option (Text × Option Text) :=
  match colonDigits? t with
  | none => none
  | some (line, r) =>
    match colonDigits? r with
    | some (column, r) => if isClosed r then some (line, some column) else none
    | none => if isClosed r then some (line, none) else none

/-- The digits of a text `:line:column`. -/
def strictNumbers? (t : Text) : Option (Text × Option Text) :=
  match colonDigits? t with
  | none => none
  | some (line, r) =>
    match colonDigits? r with
    | some (column, []) => some (line, some column)
    | _ => none

/-- The shortest path, of one character at least and within one line, that numbers follow. -/
def location? (numbers? : Text → Option (Text × Option Text)) : Text → Option Location
  | [] => none
  | c :: r =>
    if c = '\n' then none
    else
      match numbers? r with
      | some (line, column) => some ⟨[c], line, column⟩
      | none => (location? numbers? r).map fun l => { l with path := c :: l.path }

/-- Whether a text names no location, as `native` does: it is not empty and its only closing
parenthesis, if it has one, stands at its end. -/
def isOpaque (t : Text) : Bool :=
  let inside := t.takeWhile (· != ')')
  !inside.isEmpty && isClosed (t.drop inside.length)

/-- What stands in the place of a location: one with a path, or an opaque text. -/
def place? (t : Text) : Option (Option Location) :=
  match location? looseNumbers? t with
  | some l => some (some l)
  | none => if isOpaque t then some none else none

/-- The text after blanks and an opening parenthesis. -/
def afterOpening? (t : Text) : Option Text :=
  if t.head?.any isBlank then
    match t.dropWhile isBlank with
    | [] => none
    | c :: r => if c = '(' then some r else none
  else none

/-- The shortest function name, of one character at least and within one line, that a place in
parentheses follows. -/
def namedPlace? : Text → Option (Text × Option Location)
  | [] => none
  | c :: r =>
    if c = '\n' then none
    else
      match (afterOpening? r).bind place? with
      | some l => some ([c], l)
      | none => (namedPlace? r).map fun (name, l) => (c :: name, l)

/-- A place, with the function before it if there is one. -/
def functionAndPlace? (t : Text) : Option (Option Text × Option Location) :=
  match namedPlace? t with
  | some (name, l) => some (some name, l)
  | none => (place? t).map fun l => (none, l)

/-- A function and place after blanks, as many of them as possible. -/
def afterBlanks? : Text → Option (Option Text × Option Location)
  | [] => none
  | c :: r => if isBlank c then (afterBlanks? r).or (functionAndPlace? r) else none

/-- The keyword form: `at function (place)` or `at place`. -/
def keywordForm? (line : Text) : Option (Option Text × Option Location) :=
  match line.dropWhile isBlank with
  | 'a' :: 't' :: r => afterBlanks? r
  | _ => none

/-- The bare form: `path:line:column` (`_BARE_FRAME`). -/
def bareForm? (line : Text) : Option Location := location? strictNumbers? line

/-- The at-sign form: `function@path:line:column`, with the longest function that fits
(`_AT_SIGN_FRAME`). -/
def atSignForm? : Text → Option (Text × Location)
  | [] => none
  | c :: r =>
    let later := if c = '\n' then none else (atSignForm? r).map fun (name, l) => (c :: name, l)
    later.or (if c = '@' then (bareForm? r).map fun l => ([], l) else none)

/-- The value of the digits of a numeral, unless it is too long (`_to_int`). -/
def numeral (digits : Text) : Except UnreadableNumeral Nat :=
  match Text.number? digits with
  | some n => .ok n
  | none => .error ⟨⟩

/-- The frame of a function and a location. -/
def ofLocation (name : Option Text) (l : Location) : Except UnreadableNumeral Frame := do
  let line ← numeral l.line
  let column ← l.column.mapM numeral
  return ⟨name, some l.path, some line, column⟩

/-- The frame of a line of a stack trace, if the line names one (`parse_frame`). -/
def parse (line : Text) : Except UnreadableNumeral (Option Frame) :=
  let line := Text.dropEndWhile (fun c => c == '\r' || c == '\n') line
  match keywordForm? line with
  | some (name, some l) => (ofLocation name l).map some
  | some (name, none) => .ok (some ⟨name, none, none, none⟩)
  | none =>
    -- only the keyword form sees the blanks around a line
    let bare := Text.strip line
    match atSignForm? bare with
    | some (name, l) => (ofLocation (if name.isEmpty then none else some name) l).map some
    | none =>
      match bareForm? bare with
      | some l => (ofLocation none l).map some
      | none => .ok none

/-- The lines of a trace that name frames, with their frames. -/
def parseLines (trace : Text) : Except UnreadableNumeral (List (Text × Frame)) := do
  let parsed ← (Text.lines trace).mapM fun line => do
    return (← parse line).map fun f => (line, f)
  return parsed.filterMap id

/-- The frames of the lines of a trace (`parse_stack`). -/
def parseAll (trace : Text) : Except UnreadableNumeral (List Frame) :=
  (parseLines trace).map (·.map (·.2))

end Frame
end SourceStamp
