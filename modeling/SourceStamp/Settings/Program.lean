import SourceStamp.Settings.Store

/-!
# Programs over a store

What code does with a store: it looks at the settings in force, changes them, runs blocks under
overrides, and raises and catches failures.

- `Failure`: what ends a program before its end.
- `Change`: the calls that replace the snapshot.
- `Program`: the code. What it does next depends on what it was answered.
- `Program.exec`: what it does to a store. A block leaves its override whether it fails or not.
-/

namespace SourceStamp

/-- What ends a program before its end. -/
inductive Failure where
  /-- Settings were refused. -/
  | settings (e : SettingsError)
  /-- A subscriber failed. -/
  | subscriber
  /-- Something that the program raised. -/
  | raised (name : Text)

/-- A call that replaces the snapshot. -/
inductive Change where
  /-- Chosen settings are replaced. -/
  | configure (o : Options)
  /-- All go back to the defaults, as they are then. -/
  | reset (defaults : Settings)

/-- What the caller of a change gets: the new snapshot, unless a subscriber failed. -/
def Update.answer {κ : Type} (u : Update κ) : Except Failure Settings :=
  if u.failed then .error .subscriber else .ok u.store.snapshot

/-- The store after a change, and what the caller gets. -/
def Change.apply {κ : Type} (react : κ → Reaction κ) (s : Store κ) :
    Change → Store κ × Except Failure Settings
  | configure o =>
    match s.configure react o with
    | .ok u => (u.store, u.answer)
    | .error e => (s, .error (.settings e))
  | reset defaults =>
    let u := (s.setDefaults defaults).reset react
    (u.store, u.answer)

/-- Code that uses a store. -/
inductive Program (ρ : Type) where
  /-- It is over. -/
  | done (result : ρ)
  /-- It fails. -/
  | raise (f : Failure)
  /-- It looks at the settings in force. -/
  | look (next : Settings → Program ρ)
  /-- It replaces the snapshot, which may fail. -/
  | change (c : Change) (next : Settings → Program ρ)
  /-- It runs a block under an override (`ConfigStore.override`). -/
  | override (settings : Settings) (body : Program ρ) (next : ρ → Program ρ)
  /-- It runs a part whose failures it handles. -/
  | attempt (body : Program ρ) (handler : Failure → Program ρ) (next : ρ → Program ρ)

/-- What a program does to its store at some moment. -/
inductive Operation where
  | look
  | change (c : Change)
  | enter (settings : Settings)
  | leave

/-- A moment of an execution: what is done then, and what the store holds before. -/
structure Moment where
  /-- What is done. -/
  operation : Operation
  /-- The snapshot. -/
  snapshot : Settings
  /-- The settings in force. -/
  active : Settings

/-- What a program came to. -/
structure Execution (κ ρ : Type) where
  /-- What it did, in order. -/
  moments : List Moment
  /-- The store at the end. -/
  store : Store κ
  /-- The result, or the failure that nothing handled. -/
  outcome : Except Failure ρ

namespace Execution

variable {κ ρ : Type}

/-- The execution with something done before. -/
def after (m : Moment) (x : Execution κ ρ) : Execution κ ρ := { x with moments := m :: x.moments }

/-- One execution, and then another one. -/
def followedBy (x y : Execution κ ρ) : Execution κ ρ := { y with moments := x.moments ++ y.moments }

/-- Goes on after a result. -/
def andThen (x : Execution κ ρ) (next : ρ → Store κ → Execution κ ρ) : Execution κ ρ :=
  match x.outcome with
  | .ok r => x.followedBy (next r x.store)
  | .error _ => x

/-- Goes on after a failure. -/
def orElse (x : Execution κ ρ) (handler : Failure → Store κ → Execution κ ρ) : Execution κ ρ :=
  match x.outcome with
  | .ok _ => x
  | .error f => x.followedBy (handler f x.store)

end Execution

namespace Program

variable {κ ρ : Type}

/-- What the store holds when something is done. -/
def moment (s : Store κ) (operation : Operation) : Moment := ⟨operation, s.snapshot, s.get⟩

/-- What a program does to a store. -/
def exec (react : κ → Reaction κ) : Program ρ → Store κ → Execution κ ρ
  | done r, s => ⟨[], s, .ok r⟩
  | raise f, s => ⟨[], s, .error f⟩
  | look next, s => .after (moment s .look) (exec react (next s.get) s)
  | change c next, s =>
    .after (moment s (.change c)) <|
      match c.apply react s with
      | (s', .ok settings) => exec react (next settings) s'
      | (s', .error f) => ⟨[], s', .error f⟩
  | override settings body next, s =>
    let inner := exec react body (s.enter settings)
    -- the override is left after a failure too
    let block : Execution κ ρ :=
      ⟨moment s (.enter settings) :: inner.moments ++ [moment inner.store .leave],
        inner.store.leave, inner.outcome⟩
    block.andThen fun r s => exec react (next r) s
  | attempt body handler next, s =>
    ((exec react body s).orElse fun f s => exec react (handler f) s).andThen fun r s =>
      exec react (next r) s

end Program
end SourceStamp
