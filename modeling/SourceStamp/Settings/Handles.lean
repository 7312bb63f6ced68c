import SourceStamp.Settings.Program

/-!
# Handles of subscriptions

Code that subscribes a callback gets a handle, and it unsubscribes by calling that. A handle knows
its callback and not its subscription: a call removes the first subscription of an equal callback
that is there, whichever handle came with it.

- `Handle`: what a subscription gives.
- `Use`: what code does with a store and its handles.
- `Client`: a store with the handles that its subscriptions gave.
- `Client.change?`: a change of the snapshot, with the calls that it leads to.
- `Client.step`, `Client.run`: the client after a use, and after any number of them.

Callbacks only take note of the settings here: they do not fail, and they leave the store alone.
-/

namespace SourceStamp

/-- What a subscription gives to the code that made it (`ConfigStore.subscribe`). -/
structure Handle (κ : Type) where
  /-- The callback that was subscribed. -/
  callback : κ
  /-- Whether the handle has been called. -/
  called : Bool
  deriving DecidableEq, Repr

/-- What code does with a store and its handles. -/
inductive Use (κ : Type) where
  /-- It subscribes a callback. -/
  | subscribe (callback : κ)
  /-- It calls the handle of a subscription, told by how many were made before. -/
  | release (number : Nat)
  /-- It replaces the snapshot. -/
  | change (c : Change)

/-- A subscriber that only takes note of the settings. -/
def Reaction.none {κ : Type} : Reaction κ := ⟨[], false⟩

/-- A store with the handles that its subscriptions gave, in order. -/
structure Client (κ : Type) where
  /-- The store. -/
  store : Store κ
  /-- The handles. -/
  handles : List (Handle κ)

namespace Client

variable {κ : Type}

/-- A new store, and no handles. -/
def start (defaults : Settings) : Client κ := ⟨.ofDefaults defaults, []⟩

/-- Subscribes a callback. -/
def subscribe (k : Client κ) (callback : κ) : Client κ :=
  ⟨k.store.subscribe callback, k.handles ++ [⟨callback, false⟩]⟩

/-- Calls a handle, which may have been called before. -/
def release [BEq κ] (k : Client κ) (number : Nat) : Client κ :=
  match k.handles[number]? with
  | none => k
  | some h => ⟨k.store.unsubscribe h.callback, k.handles.set number { h with called := true }⟩

/-- What replacing the snapshot leads to, unless it is refused. -/
def change? (k : Client κ) : Change → Option (Update κ)
  | .configure o => (k.store.configure (fun _ => .none) o).toOption
  | .reset defaults => some ((k.store.setDefaults defaults).reset fun _ => .none)

/-- The client after a use. A change that is refused changes nothing. -/
def step [BEq κ] (k : Client κ) : Use κ → Client κ
  | .subscribe callback => k.subscribe callback
  | .release number => k.release number
  | .change c =>
    match k.change? c with
    | none => k
    | some u => { k with store := u.store }

/-- The client after some uses. -/
def run [BEq κ] (k : Client κ) (uses : List (Use κ)) : Client κ := uses.foldl step k

end Client
end SourceStamp
