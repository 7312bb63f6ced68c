import SourceStamp.ModulePath
import SourceStamp.Value

/-!
# Source locations

- `SourceLocation`: where a log call stands, as far as it is known.
- `StampReading`: what the stamp of a call tells about it; `StampReading.ofMetadata` reads it from
  the metadata of an entry, where it stands under the key `__source`.
- `SourceLocation.withStamp`: the fields of a stamp laid over those of a location.
- `SourceLocation.format`, `SourceLocation.link`: how a location is shown, unless one of its numbers
  is too long to be written.
-/

namespace SourceStamp

/-- Where a location comes from. -/
inductive Provenance where
  /-- From a stamp. -/
  | injected
  /-- From a stack trace. -/
  | resolved
  deriving DecidableEq, Repr

/-- Where a log call stands, as far as it is known (`SourceLocationRecord`). -/
structure SourceLocation where
  /-- The path that is shown. -/
  filePath : Option Text
  /-- The last segment of the path. -/
  fileName : Option Text
  /-- The line, counted from one. -/
  line : Option Int
  /-- The column, counted from one. -/
  column : Option Int
  /-- The function around the call. -/
  functionName : Option Text
  /-- The component or class around the call. -/
  componentName : Option Text
  /-- The raw path, for links. -/
  fullPath : Option Text
  /-- Where the location comes from; none for an empty one. -/
  provenance : Option Provenance
  deriving DecidableEq, Repr

/-- What a stamp tells about its call (`InjectedSource`). -/
structure StampReading where
  /-- The path that the stamp names. -/
  fileName : Option Text
  /-- The line of the call. -/
  line : Option Int
  /-- The column of the call. -/
  column : Option Int
  deriving DecidableEq, Repr

/-- A text that is there and not empty. -/
def present? : Option Text → Option Text
  | some (c :: r) => some (c :: r)
  | _ => none

@[simp] theorem present?_cons (c : Char) (r : Text) :
    present? (some (c :: r)) = some (c :: r) := rfl

namespace SourceLocation

/-- Nothing is known. -/
def empty : SourceLocation := ⟨none, none, none, none, none, none, none, none⟩

/-- Whether path, line and function are all unknown (`SourceLocationRecord.is_empty`). -/
def isEmpty (l : SourceLocation) : Bool :=
  l.filePath.isNone && l.line.isNone && l.functionName.isNone

/-- Whether a stamp names another file than the location. -/
def namesOtherFile (l : SourceLocation) (i : StampReading) : Bool :=
  match i.fileName with
  | none => false
  | some name => l.filePath.map ModulePath.withoutExtension != some name

/-- The location with the fields of a stamp laid over it (`SourceLocationRecord.with_injected`). The
raw path goes when the stamp names another file, so that no link joins the path of one file and the
line of another. -/
def withStamp (l : SourceLocation) (i : StampReading) : SourceLocation where
  filePath := (present? i.fileName).or l.filePath
  fileName := ((present? i.fileName).map (Text.lastPiece (· == '/'))).or l.fileName
  line := i.line.or l.line
  column := i.column.or l.column
  functionName := l.functionName
  componentName := l.componentName
  fullPath := if l.namesOtherFile i then none else l.fullPath
  provenance := some .injected

/-- A number after a colon, if there is one. -/
def colonNumber : Option Int → Except UnreadableNumeral Text
  | some n => (Text.ofInt? n).map (':' :: ·)
  | none => .ok []

/-- The path and line as they are shown; a verbose form has the column too. In development the path
is shown, else the file name. -/
def formatPath (l : SourceLocation) (path : Text) (verbose development : Bool) :
    Except UnreadableNumeral Text :=
  let shown := if development then path else l.fileName.getD []
  match l.line with
  | none => .ok shown
  | some line => do
    let line ← colonNumber (some line)
    let column ← if verbose then colonNumber l.column else .ok []
    return shown ++ line ++ column

/-- The location as it is shown next to a message (`SourceLocationRecord.format`). A verbose form
starts with the function. -/
def format (l : SourceLocation) (verbose development : Bool) : Except UnreadableNumeral Text :=
  let function := if verbose then (present? l.functionName).toList else []
  match present? l.filePath with
  | none => .ok (Text.join " @ ".toList function)
  | some path =>
    (l.formatPath path verbose development).map fun place =>
      Text.join " @ ".toList (function ++ [place])

/-- The raw path with line and column, for following (`SourceLocationRecord.link`). The paths of
bundler output lead nowhere. -/
def link (l : SourceLocation) : Except UnreadableNumeral Text :=
  match present? l.fullPath with
  | none => .ok []
  | some path =>
    if ModulePath.isBundled path then .ok []
    else
      match l.line with
      | none => .ok path
      | some line => do
        let line ← colonNumber (some line)
        let column ← colonNumber l.column
        return path ++ line ++ column

end SourceLocation

/-- The key under which a stamp stands in metadata (`SOURCE_KEY`). -/
def sourceKey : Text := "__source".toList

/-- Metadata without the stamp (`strip_source`). -/
def withoutSource (metadata : Fields) : Fields := metadata.erase sourceKey

namespace StampReading

/-- Whether a file and a line are both there (`InjectedSource.is_complete`). -/
def isComplete (i : StampReading) : Bool := (present? i.fileName).isSome && i.line.isSome

/-- The number of a field: an integer, or a text of digits with blanks around it (`_as_int`). A text
of digits that has no value is an error; everything else is no number. -/
def number? : Option Value → Except UnreadableNumeral (Option Int)
  | some (.int n) => .ok (some n)
  | some (.text t) =>
    let digits := Text.strip t
    if !digits.isEmpty && digits.all Text.isDigitLike then
      match Text.integer? t with
      | some n => .ok (some n)
      | none => .error ⟨⟩
    else .ok none
  | _ => .ok none

/-- The field of the first name or, where there is none, that of the second. -/
def field? (fields : Fields) (name short : String) : Option Value :=
  (fields.get? name.toList).or (fields.get? short.toList)

/-- What the fields of a stamp tell, if that is a file or a line at least. -/
def ofFields (fields : Fields) : Except UnreadableNumeral (Option StampReading) := do
  let fileName := present? ((field? fields "fileName" "file").bind Value.text?)
  let line ← number? (field? fields "lineNumber" "line")
  let column ← number? (field? fields "columnNumber" "column")
  return if fileName.isNone && line.isNone then none else some ⟨fileName, line, column⟩

/-- What the stamp in an entry's metadata tells (`InjectedSource.from_metadata`). -/
def ofMetadata (metadata : Fields) : Except UnreadableNumeral (Option StampReading) :=
  match (metadata.get? sourceKey).bind Value.fields? with
  | none => .ok none
  | some fields => ofFields fields

end StampReading
end SourceStamp
