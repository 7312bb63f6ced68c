import SourceStamp.Pattern.Basic
import SourceStamp.Text.Escape
import SourceStamp.Text.Numeral

/-!
# Reading patterns

The notation of patterns: literal characters, `.`, `^`, `$`, `|`, groups in parentheses, classes in
brackets, the escapes for kinds of characters and word boundaries, and the repeats `*`, `+`, `?`,
`{m}`, `{m,n}`, which a question mark may follow.

- `Pattern.parse?`: the pattern of a text, if the text is one.

A repeat needs something to repeat, which an anchor is not, and does not follow another repeat. A
brace that starts no repeat stands for itself.

The program takes more patterns than these. Inline flags, look-ahead and look-behind, named and
conditional groups, references back to a group, escapes by number or name of a character, and
possessive or atomic repeats are no part of the notation: `Pattern.parse?` refuses a text with one
of them, also where the program reads it. What is stated about choices of files holds for predicates
of any kind.
-/

namespace SourceStamp
namespace Pattern

/-- The kind of character that an escape letter names, and whether it names that kind or the
others. -/
def kindOfLetter? (c : Char) : Option (CharKind × Bool) :=
  if c = 'd' then some (.digit, true)
  else if c = 'D' then some (.digit, false)
  else if c = 's' then some (.blank, true)
  else if c = 'S' then some (.blank, false)
  else if c = 'w' then some (.word, true)
  else if c = 'W' then some (.word, false)
  else none

/-- The character that an escaped character stands for. Letters and digits without a meaning are
refused. -/
def escapedChar? (c : Char) : Option Char :=
  if c = 'n' then some '\n'
  else if c = 't' then some '\t'
  else if c = 'r' then some '\r'
  else if c = 'a' then some '\x07'
  else if c = 'f' then some '\x0c'
  else if c = 'v' then some '\x0b'
  else if c.isAlphanum then none
  else some c

/-! ## Classes -/

/-- A class item that stands for one character, or a kind. -/
def classAtom? : Text → Option ((Char ⊕ ClassItem) × Text)
  | [] => none
  | c :: r =>
    if c = Text.backslash then
      match r with
      | [] => none
      | e :: r =>
        match kindOfLetter? e with
        | some (k, isIn) => some (.inr (.kind k isIn), r)
        | none =>
          if e = 'b' then some (.inl '\x08', r) else (escapedChar? e).map fun c => (.inl c, r)
    else some (.inl c, r)

/-- The item of an atom on its own. -/
def atomItem : Char ⊕ ClassItem → ClassItem
  | .inl c => .range c c
  | .inr item => item

/-- The items of a class up to its closing bracket, which stands for itself in the first place. The
first argument bounds the number of items. -/
def classItems? : Nat → (isFirst : Bool) → Text → Option (List ClassItem × Text)
  | 0, _, _ => none
  | n + 1, isFirst, t =>
    if t.head? = some ']' ∧ !isFirst then some ([], t.drop 1)
    else do
      let (low, r) ← classAtom? t
      match r with
      | '-' :: ']' :: r => some ([atomItem low, .range '-' '-'], r)
      | '-' :: r =>
        let (high, r) ← classAtom? r
        match low, high with
        | .inl a, .inl b =>
          if a ≤ b then
            let (items, r) ← classItems? n false r
            some (.range a b :: items, r)
          else none
        | _, _ => none
      | r =>
        let (items, r) ← classItems? n false r
        some (atomItem low :: items, r)

/-- The class after an opening bracket. -/
def charClass? (t : Text) : Option (CharClass × Text) :=
  let negated := t.head? == some '^'
  let body := if negated then t.drop 1 else t
  (classItems? (body.length + 1) true body).map fun (items, r) => (⟨items, negated⟩, r)

/-! ## Repeats -/

/-- The limits of a repeat in braces, after the opening brace: `{m}`, `{m,}`, `{,n}` or `{m,n}`. -/
def bracedLimits? (t : Text) : Option (Nat × Option Nat × Text) :=
  let low := t.takeWhile Char.isDigit
  let r := t.dropWhile Char.isDigit
  let value (digits : Text) : Nat := Text.valueOfDigits (digits.filterMap Text.digit?)
  match r with
  | '}' :: r => if low.isEmpty then none else some (value low, some (value low), r)
  | ',' :: r =>
    let high := r.takeWhile Char.isDigit
    match r.dropWhile Char.isDigit with
    | '}' :: r => some (value low, if high.isEmpty then none else some (value high), r)
    | _ => none
  | _ => none

/-- The limits of a repeat at the start of a text. -/
def limits? : Text → Option (Nat × Option Nat × Text)
  | [] => none
  | c :: r =>
    if c = '*' then some (0, none, r)
    else if c = '+' then some (1, none, r)
    else if c = '?' then some (0, some 1, r)
    else if c = '{' then bracedLimits? r
    else none

/-- Whether a pattern matches at places rather than texts, so that it cannot be repeated. -/
def isAnchor : Pattern → Bool
  | start | finish _ | boundary _ => true
  | _ => false

/-- A pattern with the repeat that follows it, if one does. -/
def withRepeat? (p : Pattern) (t : Text) : Option (Pattern × Text) :=
  match limits? t with
  | none => some (p, t)
  | some (least, most, r) =>
    if isAnchor p || most.any (· < least) then none
    else
      let r := if r.head? = some '?' then r.drop 1 else r
      if (limits? r).isSome then none else some (repeated p least most, r)

/-! ## Expressions -/

/-- The pattern of an escaped character outside classes. -/
def escape? (c : Char) : Option Pattern :=
  match kindOfLetter? c with
  | some (k, isIn) => some (char ⟨[.kind k isIn], false⟩)
  | none =>
    if c = 'b' then some (boundary true)
    else if c = 'B' then some (boundary false)
    else if c = 'A' then some start
    else if c = 'Z' then some (finish true)
    else (escapedChar? c).map fun c => char (.single c)

mutual

/-- The alternatives up to a closing parenthesis or the end. In these functions the first argument
bounds the depth of the recursion. -/
def alternatives? : Nat → Text → Option (Pattern × Text)
  | 0, _ => none
  | n + 1, t => do
    let (p, r) ← sequence? n t
    match r with
    | '|' :: r =>
      let (q, r) ← alternatives? n r
      some (either p q, r)
    | r => some (p, r)

/-- The repeated atoms up to a bar, a closing parenthesis or the end. -/
def sequence? : Nat → Text → Option (Pattern × Text)
  | 0, _ => none
  | n + 1, t =>
    match t with
    | [] => some (empty, [])
    | c :: r =>
      if c = '|' ∨ c = ')' then some (empty, c :: r)
      else do
        let (p, r) ← atom? n (c :: r)
        let (p, r) ← withRepeat? p r
        let (q, r) ← sequence? n r
        some (seq p q, r)

/-- One atom: a character, a class, an anchor or a group. -/
def atom? : Nat → Text → Option (Pattern × Text)
  | 0, _ => none
  | n + 1, t =>
    if (limits? t).isSome then none
    else
      match t with
      | [] => none
      | c :: r =>
        if c = '.' then some (char .anyInLine, r)
        else if c = '^' then some (start, r)
        else if c = '$' then some (finish false, r)
        else if c = '[' then (charClass? r).map fun (k, r) => (char k, r)
        else if c = Text.backslash then
          match r with
          | [] => none
          | e :: r => (escape? e).map fun p => (p, r)
        else if c = '(' then do
          let body ← if r.head? = some '?' then
              (if "?:".toList.isPrefixOf r then some (r.drop 2) else none) else some r
          let (p, r) ← alternatives? n body
          if r.head? = some ')' then some (p, r.drop 1) else none
        else some (char (.single c), r)

end

/-- The pattern of a text, if the text is one. -/
def parse? (t : Text) : Option Pattern :=
  match alternatives? (3 * t.length + 3) t with
  | some (p, []) => some p
  | _ => none

end Pattern
end SourceStamp
