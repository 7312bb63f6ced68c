import SourceStamp.Text.Numeral

/-!
# Notices

What the library has to say about its own work, for whoever listens at debug level.

- `Notice`: the occasions.
- `Notice.channel`, `Notice.message`: where a notice goes and how it reads.
-/

namespace SourceStamp

/-- An occasion worth a word at debug level. -/
inductive Notice where
  /-- A call has no closing parenthesis and is passed over (`Rewriter.plan`). -/
  | unbalancedCall (name : Text) (path : Option Text) (line : Nat)
  /-- A source text holds no monitored call, or declares a hook itself (`Rewriter.transform`). -/
  | nothingMonitored (path : Option Text)
  /-- An edit overlaps an earlier one or leaves the text (`apply_edits`). -/
  | droppedEdit (position : Int)
  /-- A file was stamped (`transform_file`). -/
  | stamped (count : Nat) (path : Text)
  /-- Settings were replaced (`ConfigStore.configure`). -/
  | settingsUpdated (options : List Text)
  /-- A stack could not be captured (`SourceLocationResolver`). -/
  | captureFailed (reason : Text)
  deriving DecidableEq, Repr

namespace Notice

/-- Where a notice goes. -/
def channel : Notice → String
  | unbalancedCall .. | nothingMonitored _ => "rastro.rewriter.core"
  | droppedEdit _ => "rastro.rewriter.edits"
  | stamped .. => "rastro.adapters"
  | settingsUpdated _ => "rastro.config"
  | captureFailed _ => "rastro.stack.resolver"

/-- A path in a notice; `None` stands for a missing one. -/
def pathText (path : Option Text) : Text := path.getD "None".toList

/-- How a notice reads. -/
def message : Notice → Text
  | unbalancedCall name path line =>
    "Unbalanced call ".toList ++ name ++ " at ".toList ++ pathText path ++ ":".toList ++
      Text.ofNat line ++ ", skipping".toList
  | nothingMonitored path => "No monitored calls in ".toList ++ pathText path
  | droppedEdit position => "Dropping overlapping edit at offset ".toList ++ Text.ofInt position
  | stamped count path =>
    "Injected ".toList ++ Text.ofNat count ++ " location(s) into ".toList ++ path
  | settingsUpdated options =>
    "Configuration updated: ".toList ++
      (if options.isEmpty then "(none)".toList else Text.join ", ".toList options)
  | captureFailed reason => "Stack capture failed: ".toList ++ reason

/-- The channel of a module of the given name (`get_logger`). Channels of one family share a first
part. -/
def channelNamed (name : Text) : Text :=
  if name = "rastro".toList ∨ "rastro.".toList.isPrefixOf name then name
  else "rastro.".toList ++ name

end Notice
end SourceStamp
