import SourceStamp.Text.Basic

/-!
# Named choices

The choices that settings offer by name.

- `Environment`: where the program runs.
- `Level`: how severe an entry is; `Level.silent` is the level that no entry reaches.
- `Preset`: combinations of settings.

Each has its list `all`, its `name`, and `ofName?`, which finds a choice by its name.
-/

namespace SourceStamp

/-- Where a program runs (`ENVIRONMENTS`). -/
inductive Environment where
  | development
  | production
  | test
  deriving DecidableEq, Repr

namespace Environment

/-- All environments. -/
def all : List Environment := [development, production, test]

/-- The name of an environment. -/
def name : Environment → Text
  | development => "development".toList
  | production => "production".toList
  | test => "test".toList

/-- The environment of a name. -/
def ofName? (t : Text) : Option Environment := all.find? (·.name == t)

end Environment

/-- How severe an entry is (`LogLevel`). -/
inductive Level where
  | trace
  | debug
  | info
  | warn
  | error
  /-- Above all others; as a minimum it lets nothing through. -/
  | silent
  deriving DecidableEq, Repr

namespace Level

/-- All levels, from the least severe on. -/
def all : List Level := [trace, debug, info, warn, error, silent]

/-- The name of a level. -/
def name : Level → Text
  | trace => "trace".toList
  | debug => "debug".toList
  | info => "info".toList
  | warn => "warn".toList
  | error => "error".toList
  | silent => "silent".toList

/-- The rank of a level (`LogLevel.severity`). -/
def severity : Level → Nat
  | trace => 0
  | debug => 1
  | info => 2
  | warn => 3
  | error => 4
  | silent => 5

/-- The level of a name, in letters of either case. -/
def ofName? (t : Text) : Option Level := all.find? (·.name == t.map Char.toLower)

end Level

/-- A combination of settings under one name (`PRESETS`). -/
inductive Preset where
  | development
  | production
  | test
  | verbose
  | minimal
  deriving DecidableEq, Repr

namespace Preset

/-- All presets. -/
def all : List Preset := [development, production, test, verbose, minimal]

/-- The name of a preset. -/
def name : Preset → Text
  | development => "development".toList
  | production => "production".toList
  | test => "test".toList
  | verbose => "verbose".toList
  | minimal => "minimal".toList

/-- The preset of a name. -/
def ofName? (t : Text) : Option Preset := all.find? (·.name == t)

end Preset
end SourceStamp
