import SourceStamp.Call.MonitoredNames
import SourceStamp.Settings.Choices
import SourceStamp.Value

/-!
# Settings errors

What can be wrong with settings, names, presets and patterns.

- `SettingsError`: the causes; `SettingsError.refused`: the cause for a value that is refused.
- `SettingsError.field?`: the setting at fault, if one is.
- `SettingsError.message`: the wording.
-/

namespace SourceStamp

/-- What can be wrong with settings (`ConfigError`). -/
inductive SettingsError where
  /-- The monitored names do not pass their checks. -/
  | names (e : NamesError)
  /-- The environment is none of those that exist. -/
  | unknownEnvironment (value : Value)
  /-- The level is none of those that exist. -/
  | unknownLevel (value : Value)
  /-- The choice for source paths is neither a truth value nor `auto`. -/
  | unknownSourcePaths (value : Value)
  /-- Options of these names do not exist. -/
  | unknownOptions (names : List Text)
  /-- There is no preset of this name. -/
  | unknownPreset (name : Text)
  /-- There is no rule of this kind. -/
  | unknownRuleKind (kind : Text)
  /-- A record was given a field that it does not have. -/
  | unknownField (name : Text)
  /-- The pattern given for a field cannot be read. -/
  | invalidPattern (field : String) (pattern : Text)
  /-- A value is refused, and a number in it is too long for the message that would show it. -/
  | unwritten (e : UnreadableNumeral)
  deriving Repr

namespace SettingsError

/-- The error for a value that is refused: the given one, if its message can show the value. -/
def refused (v : Value) (e : SettingsError) : SettingsError :=
  if v.isWritable then e else .unwritten ⟨⟩

/-- The choices that were open, as a message lists them. -/
def expected (names : List Text) : Text :=
  " (expected one of ".toList ++ Text.join ", ".toList names ++ ")".toList

/-- The setting at fault. -/
def field? : SettingsError → Option String
  | names (.notAnIdentifier group _) => some group.label
  | names (.overlap _) => some "wrappers"
  | unknownEnvironment _ => some "environment"
  | unknownLevel _ => some "level"
  | unknownSourcePaths _ => some "include_source_path"
  | unknownOptions _ => none
  | unknownPreset _ => some "preset"
  | unknownRuleKind _ => some "kind"
  | unknownField _ => none
  | invalidPattern field _ => some field
  | unwritten _ => none

/-- What is wrong, without the setting at fault. -/
def detail : SettingsError → Text
  | names (.notAnIdentifier _ name) => "not an identifier: ".toList ++ Text.quoted name
  | names (.overlap shared) =>
    "hook and wrapper groups overlap: ".toList ++ Text.join ", ".toList shared
  | unknownEnvironment v =>
    "unknown environment ".toList ++ v.shown ++ expected (Environment.all.map (·.name))
  | unknownLevel v => "unknown level ".toList ++ v.shown ++ expected (Level.all.map (·.name))
  | unknownSourcePaths v => "expected True, False or 'auto', got ".toList ++ v.shown
  | unknownOptions options => "unknown option(s): ".toList ++ Text.join ", ".toList options
  | unknownPreset name =>
    "unknown preset ".toList ++ Text.quoted name ++ expected (Preset.all.map (·.name))
  | unknownRuleKind kind => "unknown pattern kind ".toList ++ Text.quoted kind
  | unknownField name => "unknown field ".toList ++ Text.quoted name
  | invalidPattern _ pattern => "invalid regex ".toList ++ Text.quoted pattern
  | unwritten _ => Text.unwritableReason

/-- The wording: the setting at fault, if one is, and what is wrong with it. -/
def message (e : SettingsError) : Text :=
  match e.field? with
  | some field => field.toList ++ ": ".toList ++ e.detail
  | none => e.detail

end SettingsError
end SourceStamp
