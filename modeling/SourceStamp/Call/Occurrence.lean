import SourceStamp.Call.MonitoredNames
import SourceStamp.Lexis.Tracker
import SourceStamp.Text.Blank
import SourceStamp.Text.Letter

/-!
# Occurrences of monitored calls

Where the monitored calls of a source text stand. A call is a monitored name at a word boundary,
perhaps type arguments in angle brackets (which may hold one inner pair), blanks, and an opening
parenthesis.

- `occurrences`: all such texts, from left to right without overlap, wherever they stand.
- `MonitoredCall.findAll`: those that start in code and are not the name in a function declaration.
- `declaresHook`: whether a source text declares a function of a hook's name.
-/

namespace SourceStamp

open Text (isBlank isAlphanumeric isBoundary)

/-- A monitored call in a source text (`CallSite`). -/
structure MonitoredCall where
  /-- The monitored name, with its receiver if it is a method. -/
  name : Text
  /-- How the call is treated. -/
  kind : CalleeKind
  /-- The offset of the name. -/
  start : Nat
  /-- The offset after the opening parenthesis. -/
  stop : Nat
  deriving DecidableEq, Repr

/-- The offset of the opening parenthesis. -/
def MonitoredCall.openParen (call : MonitoredCall) : Nat := call.stop - 1

/-- The text after the bracket that closes type arguments. One pair of brackets may stand inside
them; `nested` tells whether it is open. -/
def afterClosingAngle (nested : Bool) : Text → Option Text
  | [] => none
  | c :: r =>
    if c = '<' then (if nested then none else afterClosingAngle true r)
    else if c = '>' then (if nested then afterClosingAngle false r else some r)
    else afterClosingAngle nested r

/-- The text after type arguments, or the text itself if it starts with none (`_GENERIC_SUFFIX`). -/
def afterTypeArguments : Text → Option Text
  | [] => some []
  | c :: r => if c = '<' then afterClosingAngle false r else some (c :: r)

/-- The text after an opening parenthesis, before which blanks may stand. -/
def afterParen (t : Text) : Option Text :=
  match t.dropWhile isBlank with
  | [] => none
  | c :: r => if c = '(' then some r else none

/-- The text after the opening of an argument list, type arguments included. -/
def afterCallOpening (t : Text) : Option Text := (afterTypeArguments t).bind afterParen

/-- The callee that a text starts with, if an argument list follows it; and the text after the
opening parenthesis (`compile_call_pattern`). -/
def calleeAt (callees : List (Text × CalleeKind)) (t : Text) : Option (Text × CalleeKind × Text) :=
  callees.findSome? fun (name, kind) =>
    if name.isPrefixOf t then
      (afterCallOpening (t.drop name.length)).map fun after => (name, kind, after)
    else none

/-- The keyword that declares a function (`_DEFINITION_KEYWORD`). -/
def declarationKeyword : Text := "function".toList

/-- Whether a character can belong to an identifier of the source (`_is_identifier_char`). -/
def isNameChar (c : Char) : Bool := isAlphanumeric c || c == '_' || c == '$'

/-- Whether a text, given from its end to its start, ends in the keyword of a function declaration
and blanks (`_is_definition`). -/
def endsInDeclaration (before : Text) : Bool :=
  let word := before.dropWhile isBlank
  before.head?.any isBlank && declarationKeyword.reverse.isPrefixOf word &&
    !(word.drop declarationKeyword.length).head?.any isNameChar

/-- A text that reads as a monitored call, wherever it stands. -/
structure Occurrence extends MonitoredCall where
  /-- Whether the name is the one that a function declaration introduces. -/
  declared : Bool
  deriving DecidableEq, Repr

/-- The occurrences in a text that starts at `position`, after `before` (given from its end to its
start). The first `skip` characters still belong to an earlier occurrence. -/
def occurrencesFrom (callees : List (Text × CalleeKind)) (skip position : Nat) (before : Text) :
    Text → List Occurrence
  | [] => []
  | c :: r =>
    match skip with
    -- the character belongs to the occurrence before
    | skip + 1 => occurrencesFrom callees skip (position + 1) (c :: before) r
    | 0 =>
      match
        if isBoundary before.head? (some c) then calleeAt callees (c :: r) else none
      with
      | some (name, kind, after) =>
        -- the occurrence reaches up to the opening parenthesis and holds it
        let length := r.length + 1 - after.length
        ⟨⟨name, kind, position, position + length⟩, endsInDeclaration before⟩ ::
          occurrencesFrom callees (length - 1) (position + 1) (c :: before) r
      | none => occurrencesFrom callees 0 (position + 1) (c :: before) r

/-- All texts that read as monitored calls, from left to right without overlap. -/
def occurrences (names : MonitoredNames) (source : Text) : List Occurrence :=
  occurrencesFrom names.callees 0 0 [] source

namespace MonitoredCall

/-- The occurrences that start in code and are not declared. -/
def ofOccurrences (t : Tracker) : List Occurrence → List MonitoredCall
  | [] => []
  | o :: rest =>
    let (state, t) := t.stateAt o.start
    if state.isCode && !o.declared then o.toMonitoredCall :: ofOccurrences t rest
    else ofOccurrences t rest

/-- The monitored calls of a source text, from left to right (`find_calls`). -/
def findAll (source : Text) (names : MonitoredNames) : List MonitoredCall :=
  ofOccurrences (Tracker.ofSource source) (occurrences names source)

end MonitoredCall

/-- Whether a text starts with the declaration of a function of one of the names. -/
def startsWithDeclaration (names : List Text) (t : Text) : Bool :=
  declarationKeyword.isPrefixOf t &&
    (let r := t.drop declarationKeyword.length
     let name := r.dropWhile isBlank
     r.head?.any isBlank && names.any fun n =>
       n.isPrefixOf name &&
         ((name.drop n.length).dropWhile isBlank).head?.any fun c => c == '<' || c == '(')

/-- Whether a text, which `before` precedes, holds the declaration of a function of one of the names
(`_declaration_pattern`). -/
def declaresAny (names : List Text) (before : Option Char) : Text → Bool
  | [] => false
  | c :: r =>
    (isBoundary before (some c) && startsWithDeclaration names (c :: r)) ||
      declaresAny names (some c) r

/-- Whether a source text declares a function of a hook's name. -/
def declaresHook (source : Text) (names : MonitoredNames) : Bool :=
  declaresAny names.groups.hooks none source

end SourceStamp
