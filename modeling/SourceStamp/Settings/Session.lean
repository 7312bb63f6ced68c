import SourceStamp.Settings.Store

/-!
# Sessions

What happens to a store, move by move, when its subscribers are code of any kind. While a subscriber
runs it may use the store like all other code, and so be called again for a change of its own; in
the end it returns or fails. `Store.install` is the case of subscribers that do no more than add
other ones.

- `Subscription`: a callback that was subscribed, once for each time.
- `Move`: what the code that runs does next.
- `Session`: the store with the rounds of calls under way, and a record of what has happened.
- `Session.step`, `Session.run`: the session after a move, and after any number of them.
-/

namespace SourceStamp

/-- One subscription of a callback, which may have several. -/
structure Subscription (γ : Type) where
  /-- How many subscriptions were made before. -/
  number : Nat
  /-- What is called. -/
  callback : γ
  deriving Repr

/-- A subscription is removed by its callback, so those of one callback are alike. -/
instance {γ : Type} [BEq γ] : BEq (Subscription γ) := ⟨fun a b => a.callback == b.callback⟩

/-- What the code that runs does next: a subscriber that was called, or the code that no subscriber
called. -/
inductive Move (γ : Type) where
  /-- It replaces chosen settings. -/
  | configure (o : Options)
  /-- It goes back to the defaults. -/
  | reset
  /-- It changes what a reset installs. -/
  | setDefaults (defaults : Settings)
  /-- It subscribes a callback. -/
  | subscribe (callback : γ)
  /-- It removes a subscription of a callback. -/
  | unsubscribe (callback : γ)
  /-- It puts settings in force. -/
  | enter (settings : Settings)
  /-- It leaves the innermost override. -/
  | leave
  /-- The subscriber that runs returns. -/
  | returns
  /-- The subscriber that runs fails. -/
  | fails

/-- A snapshot that was installed. -/
structure Installation (κ : Type) where
  /-- The snapshot. -/
  settings : Settings
  /-- The subscriptions at that moment. -/
  subscribers : List κ

/-- A round of calls, which tell of one installation. -/
structure Round (κ : Type) where
  /-- How many installations there were before that one. -/
  number : Nat
  /-- What the subscribers are given. -/
  settings : Settings
  /-- The subscribers that are not called yet. -/
  waiting : List κ

/-- A store, the calls under way, and what has happened so far. -/
structure Session (γ : Type) where
  /-- The store. -/
  store : Store (Subscription γ)
  /-- The number of subscriptions made. -/
  subscribed : Nat
  /-- The rounds in which a subscriber runs, the innermost first. -/
  rounds : List (Round (Subscription γ))
  /-- The installations, in order. -/
  installations : List (Installation (Subscription γ))
  /-- The calls in order, each with the number of the installation that it tells of. -/
  calls : List (Nat × Delivery (Subscription γ))
  /-- The installations whose round a failing subscriber ended while others were waiting. -/
  cutShort : List Nat
  /-- The installations that were followed by another one while subscribers were waiting. -/
  overtaken : List Nat

namespace Session

variable {γ : Type}

/-- The session of a new store. -/
def start (defaults : Settings) : Session γ := ⟨.ofDefaults defaults, 0, [], [], [], [], []⟩

/-- A round goes on: its next subscriber is called, or it is over (`ConfigStore._notify`). -/
def proceed (σ : Session γ) (r : Round (Subscription γ)) : Session γ :=
  match r.waiting with
  | [] => σ
  | s :: waiting =>
    { σ with
      rounds := { r with waiting := waiting } :: σ.rounds
      calls := σ.calls ++ [(r.number, ⟨s, r.settings, σ.store.get⟩)] }

/-- Replaces the snapshot and begins a round. -/
def install (σ : Session γ) (settings : Settings) : Session γ :=
  proceed
    { σ with
      store := { σ.store with snapshot := settings }
      installations := σ.installations ++ [⟨settings, σ.store.subscribers⟩]
      overtaken := σ.overtaken ++ (σ.rounds.filter (!·.waiting.isEmpty)).map (·.number) }
    ⟨σ.installations.length, settings, σ.store.subscribers⟩

/-- Replaces chosen settings of the snapshot, unless the options have a fault
(`ConfigStore.configure`). -/
def configure (σ : Session γ) (o : Options) : Except SettingsError (Session γ) :=
  (σ.store.updated o).map σ.install

/-- Adds a subscription. -/
def subscribe (σ : Session γ) (callback : γ) : Session γ :=
  { σ with
    store := σ.store.subscribe ⟨σ.subscribed, callback⟩
    subscribed := σ.subscribed + 1 }

/-- The subscriber that runs returns. -/
def answer (σ : Session γ) : Session γ :=
  match σ.rounds with
  | [] => σ
  | r :: rounds => proceed { σ with rounds := rounds } r

/-- The subscriber that runs fails, which ends its round. -/
def abort (σ : Session γ) : Session γ :=
  match σ.rounds with
  | [] => σ
  | r :: rounds =>
    { σ with
      rounds := rounds
      cutShort := if r.waiting.isEmpty then σ.cutShort else σ.cutShort ++ [r.number] }

/-- The session after a move. Options with a fault change nothing, and where no subscriber runs none
can return or fail. -/
def step [BEq γ] (σ : Session γ) : Move γ → Session γ
  | .configure o =>
    match σ.configure o with
    | .ok σ' => σ'
    | .error _ => σ
  | .reset => σ.install σ.store.defaults
  | .setDefaults defaults => { σ with store := σ.store.setDefaults defaults }
  | .subscribe callback => σ.subscribe callback
  | .unsubscribe callback => { σ with store := σ.store.unsubscribe ⟨0, callback⟩ }
  | .enter settings => { σ with store := σ.store.enter settings }
  | .leave => { σ with store := σ.store.leave }
  | .returns => σ.answer
  | .fails => σ.abort

/-- The session after some moves. -/
def run [BEq γ] (σ : Session γ) (moves : List (Move γ)) : Session γ := moves.foldl step σ

end Session
end SourceStamp
