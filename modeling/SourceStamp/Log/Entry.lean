import SourceStamp.SourceLocation
import SourceStamp.Settings.Choices

/-!
# Log entries

- `Entry`: one log record with its location.
- `Entry.rendered`: the entry as a line of text, the location in parentheses after the message,
  unless the line of the location is too long to be written.
-/

namespace SourceStamp

/-- One log record (`LogEntry`). -/
structure Entry where
  /-- How severe it is. -/
  level : Level
  /-- What happened. -/
  message : Text
  /-- What the caller attached. -/
  data : Value
  /-- Where the call stands. -/
  location : SourceLocation
  /-- The user's frames of the stack. -/
  stackTrace : Option Text
  /-- Labels. -/
  tags : List Text
  /-- Further fields; never a stamp. -/
  metadata : Fields
  deriving Repr

/-- The entry as a line of text (`render_message`). In development the location shows the path, else
the file name. -/
def Entry.rendered (e : Entry) (development : Bool) : Except UnreadableNumeral Text :=
  (e.location.format false development).map fun place =>
    if place.isEmpty then e.message else e.message ++ " (".toList ++ place ++ ")".toList

end SourceStamp
