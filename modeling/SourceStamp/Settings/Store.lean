import SourceStamp.Notice
import SourceStamp.Settings.Basic

/-!
# The settings store

A store holds the settings in force and tells its subscribers when they are replaced.

- `Store.get`: the settings in force: those of the innermost override, else the snapshot.
- `Store.configure`, `Store.reset`: replace the snapshot and call the subscribers.
- `Store.subscribe`, `Store.unsubscribe`: who is called.
- `Store.enter`, `Store.leave`: overrides, which are nested and leave the snapshot alone.

Subscribers are called in the order of their subscription, as it was when the snapshot was replaced.
One that fails ends the calls.
-/

namespace SourceStamp

/-- What a subscriber does when it is called. -/
structure Reaction (κ : Type) where
  /-- The subscribers that it adds. -/
  subscribes : List κ
  /-- Whether it fails. -/
  fails : Bool
  deriving DecidableEq, Repr

/-- A call of a subscriber. -/
structure Delivery (κ : Type) where
  /-- The subscriber. -/
  subscriber : κ
  /-- The settings that it is given. -/
  settings : Settings
  /-- The settings in force while it runs. -/
  active : Settings

/-- The settings in force and who is told of changes (`ConfigStore`). -/
structure Store (κ : Type) where
  /-- What a reset installs. -/
  defaults : Settings
  /-- The settings, apart from overrides. -/
  snapshot : Settings
  /-- The subscribers in the order of their subscription; one may be there several times. -/
  subscribers : List κ
  /-- The overrides, the innermost first. -/
  overrides : List Settings

/-- What replacing the snapshot leads to. -/
structure Update (κ : Type) where
  /-- The store after all calls. -/
  store : Store κ
  /-- The calls, in order. -/
  deliveries : List (Delivery κ)
  /-- Whether the last call failed. -/
  failed : Bool

namespace Store

variable {κ : Type}

/-- The store of given defaults. -/
def ofDefaults (defaults : Settings) : Store κ := ⟨defaults, defaults, [], []⟩

/-- The settings in force (`ConfigStore.get`). -/
def get (s : Store κ) : Settings := s.overrides.headD s.snapshot

/-- Changes what a reset installs. -/
def setDefaults (s : Store κ) (defaults : Settings) : Store κ := { s with defaults := defaults }

/-- Adds a subscriber, after the others (`ConfigStore.subscribe`). -/
def subscribe (s : Store κ) (subscriber : κ) : Store κ :=
  { s with subscribers := s.subscribers ++ [subscriber] }

/-- Removes the first of the subscriptions of a subscriber, if it has any; what the handle of
`ConfigStore.subscribe` does. -/
def unsubscribe [BEq κ] (s : Store κ) (subscriber : κ) : Store κ :=
  { s with subscribers := s.subscribers.erase subscriber }

/-- Puts settings in force until they are left (`ConfigStore.override`). -/
def enter (s : Store κ) (settings : Settings) : Store κ :=
  { s with overrides := settings :: s.overrides }

/-- Leaves the innermost override (`ConfigStore.override`). -/
def leave (s : Store κ) : Store κ := { s with overrides := s.overrides.drop 1 }

/-- Calls subscribers with new settings until one fails (`ConfigStore._notify`). -/
def notify (react : κ → Reaction κ) (settings : Settings) (s : Store κ) : List κ → Update κ
  | [] => ⟨s, [], false⟩
  | subscriber :: rest =>
    let reaction := react subscriber
    -- under an override the settings in force are not the new ones
    let delivery : Delivery κ := ⟨subscriber, settings, s.get⟩
    let s := reaction.subscribes.foldl subscribe s
    if reaction.fails then ⟨s, [delivery], true⟩
    else
      let later := notify react settings s rest
      { later with deliveries := delivery :: later.deliveries }

/-- Replaces the snapshot and calls the subscribers. -/
def install (react : κ → Reaction κ) (s : Store κ) (settings : Settings) : Update κ :=
  notify react settings { s with snapshot := settings } s.subscribers

/-- Replaces the snapshot by the defaults (`ConfigStore.reset`). -/
def reset (react : κ → Reaction κ) (s : Store κ) : Update κ := s.install react s.defaults

/-- The snapshot with chosen settings replaced. All options have to exist. -/
def updated (s : Store κ) (o : Options) : Except SettingsError Settings :=
  if o.unknown.isEmpty then o.applyTo s.snapshot
  else .error (.unknownOptions (Text.sorted o.unknown))

/-- Replaces chosen settings of the snapshot (`ConfigStore.configure`). Options with a fault change
nothing. -/
def configure (react : κ → Reaction κ) (s : Store κ) (o : Options) :
    Except SettingsError (Update κ) :=
  (s.updated o).map (s.install react)

/-- The notice of a change of chosen settings. -/
def configureNotice (o : Options) : Notice := .settingsUpdated o.chosen

/-- The options of the preset of a name (`apply_preset`). -/
def presetOptions (name : Text) : Except SettingsError Options :=
  match Preset.ofName? name with
  | some p => .ok (Options.ofPreset p)
  | none => .error (.unknownPreset name)

end Store
end SourceStamp
