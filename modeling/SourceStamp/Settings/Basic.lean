import SourceStamp.Log.Entry
import SourceStamp.Settings.Error
import SourceStamp.Text.Blank

/-!
# Settings

- `Settings`: what the library is set to do.
- `Options`: choices for some of the settings, as a caller gives them.
- `Options.applyTo`: settings with the chosen ones replaced, or what is wrong with the choices.
- `Settings.shouldLog`: whether an entry of a level passes.
- `Environment.detect`: the environment that the process variables name.
-/

namespace SourceStamp

/-- When entries carry the place of their call. -/
inductive SourcePaths where
  /-- In development only. -/
  | auto
  /-- Always or never. -/
  | flag (on : Bool)
  /-- Always or never, chosen by the number one or zero. -/
  | digit (on : Bool)
  /-- Always or never, chosen by one or zero as a decimal number. -/
  | decimal (on : Bool) (places : Nat)
  deriving DecidableEq, Repr

/-- What the library is set to do (`RastroConfig`). -/
structure Settings where
  /-- Where the program runs. -/
  environment : Environment
  /-- The least severe level that passes. -/
  level : Level
  /-- When entries carry the place of their call. -/
  sourcePaths : SourcePaths
  /-- Whether errors carry the user's frames of the stack. -/
  stackTraces : Bool
  /-- Whether nothing passes at all. -/
  silent : Bool
  /-- The calls that receive stamps. -/
  names : MonitoredNames
  /-- Whether timers run. -/
  performance : Bool
  /-- Which entries are emitted. -/
  entryFilter : Option (Entry → Bool)
  /-- What becomes of an entry before it is emitted. -/
  entryTransformer : Option (Entry → Except SettingsError Entry)

namespace Settings

/-- Where no setting is chosen. -/
def base : Settings where
  environment := .production
  level := .warn
  sourcePaths := .auto
  stackTraces := false
  silent := false
  names := .standard
  performance := true
  entryFilter := none
  entryTransformer := none

/-- The usual settings of an environment: in production warnings pass, elsewhere everything does and
errors carry stack traces (`RastroConfig.defaults`). -/
def defaults (environment : Environment) : Settings :=
  { base with
    environment := environment
    level := if environment = .production then .warn else .trace
    stackTraces := environment != .production }

/-- Whether entries carry the place of their call (`RastroConfig.should_include_source_path`). -/
def includesSourcePaths (s : Settings) : Bool :=
  match s.sourcePaths with
  | .auto => s.environment == .development
  | .flag on | .digit on | .decimal on _ => on

/-- Whether the program is under development (`RastroConfig.is_development`). -/
def isDevelopment (s : Settings) : Bool := s.environment == .development

/-- Whether the program is in production (`RastroConfig.is_production`). -/
def isProduction (s : Settings) : Bool := s.environment == .production

/-- Whether an entry of a level passes (`RastroConfig.should_log`). Entries of the silent level
never do. -/
def shouldLog (s : Settings) (level : Level) : Bool :=
  !s.silent && level != .silent && s.level.severity ≤ level.severity

end Settings

/-- The level that a value names (`LogLevel.parse`). -/
def Level.parse (v : Value) : Except SettingsError Level :=
  match v.text?.bind Level.ofName? with
  | some level => .ok level
  | none => .error (.refused v (.unknownLevel v))

/-- The environment that a value names. -/
def Environment.parse (v : Value) : Except SettingsError Environment :=
  match v.text?.bind Environment.ofName? with
  | some environment => .ok environment
  | none => .error (.refused v (.unknownEnvironment v))

/-- The choice for source paths that a value stands for: a truth value, a number equal to one or
zero, or the text `auto`. -/
def SourcePaths.parse : Value → Except SettingsError SourcePaths
  | .bool on => .ok (.flag on)
  | .int n =>
    if n = 0 then .ok (.digit false)
    else if n = 1 then .ok (.digit true)
    else .error (.refused (.int n) (.unknownSourcePaths (.int n)))
  | .decimal mantissa places =>
    if mantissa = 0 then .ok (.decimal false places)
    else if mantissa = Value.unit places then .ok (.decimal true places)
    else .error (.unknownSourcePaths (.decimal mantissa places))
  | .text t => if t = "auto".toList then .ok .auto else .error (.unknownSourcePaths (.text t))
  | v => .error (.refused v (.unknownSourcePaths v))

/-- Whether an entry of the level that a value names passes. Where nothing passes, the value does
not have to name a level. -/
def Settings.shouldLogNamed (s : Settings) (v : Value) : Except SettingsError Bool :=
  if s.silent then .ok false else (Level.parse v).map s.shouldLog

/-- The process variables that name the environment, the first of them first
(`ENVIRONMENT_VARIABLES`). -/
def environmentVariables : List Text := ["RASTRO_ENV".toList, "NODE_ENV".toList]

/-- The environment that the first variable with a known one names; production if none does
(`detect_environment`). Case and blanks around the name do not count. -/
def Environment.detect (bindings : List (Text × Text)) : Environment :=
  (environmentVariables.findSome? fun name =>
    (bindings.lookup name).bind fun v =>
      Environment.ofName? ((Text.strip v).map Char.toLower)).getD .production

/-- Groups of names as a caller gives them. -/
inductive NamesOption where
  /-- Names that have passed the checks before. -/
  | checked (n : MonitoredNames)
  /-- The four groups. -/
  | groups (g : NameGroups)
  /-- A group of this name does not exist. -/
  | unknownGroup (name : Text)
  deriving Repr

/-- The names of given groups. -/
def NamesOption.resolve : NamesOption → Except SettingsError MonitoredNames
  | checked n => .ok n
  | groups g => (MonitoredNames.ofGroups? g).mapError .names
  | unknownGroup name => .error (.unknownField name)

/-- Choices for some of the settings. -/
structure Options where
  /-- Where the program runs. -/
  environment : Option Value
  /-- The least severe level that passes. -/
  level : Option Value
  /-- When entries carry the place of their call. -/
  sourcePaths : Option Value
  /-- Whether errors carry stack traces. -/
  stackTraces : Option Bool
  /-- Whether nothing passes at all. -/
  silent : Option Bool
  /-- The calls that receive stamps. -/
  names : Option NamesOption
  /-- Whether timers run. -/
  performance : Option Bool
  /-- Which entries are emitted. -/
  entryFilter : Option (Option (Entry → Bool))
  /-- What becomes of an entry before it is emitted. -/
  entryTransformer : Option (Option (Entry → Except SettingsError Entry))
  /-- The names of options that do not exist. -/
  unknown : List Text

namespace Options

/-- Nothing is chosen. -/
def none : Options :=
  ⟨.none, .none, .none, .none, .none, .none, .none, .none, .none, []⟩

/-- The names of the chosen settings, in ascending order. -/
def chosen (o : Options) : List Text :=
  [("entry_filter".toList, o.entryFilter.isSome),
    ("entry_transformer".toList, o.entryTransformer.isSome),
    ("environment".toList, o.environment.isSome),
    ("include_source_path".toList, o.sourcePaths.isSome),
    ("include_stack_trace".toList, o.stackTraces.isSome),
    ("level".toList, o.level.isSome),
    ("names".toList, o.names.isSome),
    ("performance".toList, o.performance.isSome),
    ("silent".toList, o.silent.isSome)].filterMap fun (name, isChosen) =>
      if isChosen then some name else .none

/-- A choice read by `read`, or what was set before if there is none. -/
def choose {α β : Type} (read : α → Except SettingsError β) (old : β) :
    Option α → Except SettingsError β
  | some v => read v
  | .none => .ok old

/-- The settings with the chosen ones replaced (`RastroConfig.__post_init__`). Of several faults the
first counts: environment, level, source paths, names. -/
def applyTo (o : Options) (s : Settings) : Except SettingsError Settings := do
  let environment ← choose Environment.parse s.environment o.environment
  let level ← choose Level.parse s.level o.level
  let sourcePaths ← choose SourcePaths.parse s.sourcePaths o.sourcePaths
  let names ← choose NamesOption.resolve s.names o.names
  return {
    environment, level, sourcePaths, names
    stackTraces := o.stackTraces.getD s.stackTraces
    silent := o.silent.getD s.silent
    performance := o.performance.getD s.performance
    entryFilter := o.entryFilter.getD s.entryFilter
    entryTransformer := o.entryTransformer.getD s.entryTransformer }

/-- The settings of a preset (`PRESETS`). -/
def ofPreset : Preset → Options
  | .development =>
    { none with
      environment := some (.text Environment.development.name)
      level := some (.text Level.trace.name)
      sourcePaths := some (.bool true)
      stackTraces := some true }
  | .production =>
    { none with
      environment := some (.text Environment.production.name)
      level := some (.text Level.warn.name)
      sourcePaths := some (.bool false)
      stackTraces := some false }
  | .test =>
    { none with
      environment := some (.text Environment.test.name)
      level := some (.text Level.error.name)
      silent := some true }
  | .verbose =>
    { none with
      level := some (.text Level.trace.name)
      sourcePaths := some (.bool true)
      stackTraces := some true }
  | .minimal =>
    { none with
      level := some (.text Level.info.name)
      sourcePaths := some (.bool false) }

end Options

namespace Settings

/-- The settings of given options, which must all exist. -/
def ofOptions (o : Options) : Except SettingsError Settings :=
  match o.unknown with
  | name :: _ => .error (.unknownField name)
  | [] => o.applyTo base

/-- The settings of given options; those that do not exist are ignored (`RastroConfig.from_dict`).
-/
def ofKnownOptions (o : Options) : Except SettingsError Settings := o.applyTo base

/-- The usual settings of a named environment, or of the detected one where no name is given. -/
def defaultsFor (name : Option Text) (bindings : List (Text × Text)) :
    Except SettingsError Settings :=
  match present? name with
  | none => .ok (defaults (Environment.detect bindings))
  | some name => (Environment.parse (.text name)).map defaults

end Settings
end SourceStamp
