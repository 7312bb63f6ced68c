import SourceStamp.Settings.Session

/-!
# Subscribers that only react

A store calls subscribers that add other ones and may fail. Such a round of calls is a run of a
session, so what holds of all sessions holds of the store.

- `Reaction.moves`, `roundMoves`: what reacting subscribers do, as moves.
- `Session.bareStore`, `Session.bareCalls`: a session without the numbers of its subscriptions.
- `Session.run_moves`: what becomes of a session when a subscriber reacts.
- `Session.run_roundMoves`: the round of a session is the one of the store, and `Session.run_install`
  the same for an installation.
-/

namespace SourceStamp

variable {γ : Type}

/-- The store with its subscribers renamed. -/
def Store.map {κ κ' : Type} (f : κ → κ') (s : Store κ) : Store κ' :=
  ⟨s.defaults, s.snapshot, s.subscribers.map f, s.overrides⟩

/-- The call with its subscriber renamed. -/
def Delivery.map {κ κ' : Type} (f : κ → κ') (d : Delivery κ) : Delivery κ' :=
  ⟨f d.subscriber, d.settings, d.active⟩

/-- What a subscriber does when it reacts to a call. -/
def Reaction.moves (r : Reaction γ) : List (Move γ) :=
  r.subscribes.map .subscribe ++ [if r.fails then .fails else .returns]

/-- What the subscribers of a round do. -/
def roundMoves (react : γ → Reaction γ) : List γ → List (Move γ)
  | [] => []
  | c :: rest => (react c).moves ++ if (react c).fails then [] else roundMoves react rest

namespace Session

variable {σ : Session γ}

/-- The store of a session by the callbacks of its subscriptions. -/
def bareStore (σ : Session γ) : Store γ := σ.store.map (·.callback)

/-- The calls of a session by the callbacks. -/
def bareCalls (σ : Session γ) : List (Delivery γ) := σ.calls.map fun c => c.2.map (·.callback)

theorem bareStore_subscribe (σ : Session γ) (c : γ) :
    (σ.subscribe c).bareStore = σ.bareStore.subscribe c := by
  simp [bareStore, Store.map, subscribe, Store.subscribe]

theorem run_append [BEq γ] (σ : Session γ) (moves moves' : List (Move γ)) :
    σ.run (moves ++ moves') = (σ.run moves).run moves' := List.foldl_append

/-- Subscriptions change the store and nothing else. -/
theorem run_subscribe [BEq γ] (σ : Session γ) (cs : List γ) :
    (σ.run (cs.map .subscribe)).bareStore = cs.foldl Store.subscribe σ.bareStore ∧
      (σ.run (cs.map .subscribe)).rounds = σ.rounds ∧
      (σ.run (cs.map .subscribe)).calls = σ.calls := by
  induction cs generalizing σ with
  | nil => exact ⟨rfl, rfl, rfl⟩
  | cons c cs ih =>
    obtain ⟨hstore, hrounds, hcalls⟩ := ih (σ.subscribe c)
    rw [bareStore_subscribe] at hstore
    exact ⟨hstore, hrounds, hcalls⟩

/-- A subscriber that reacts adds other ones. If it fails, its round is over, and else the round
goes on. -/
theorem run_moves [BEq γ] (reaction : Reaction γ) {round : Round (Subscription γ)}
    {rounds : List (Round (Subscription γ))} (h : σ.rounds = round :: rounds) :
    ∃ τ : Session γ, τ.bareStore = reaction.subscribes.foldl Store.subscribe σ.bareStore ∧
      τ.rounds = rounds ∧ τ.bareCalls = σ.bareCalls ∧
      σ.run reaction.moves = if reaction.fails then τ else τ.proceed round := by
  obtain ⟨hstore, hrounds, hcalls⟩ := run_subscribe σ reaction.subscribes
  have hbare : (σ.run (reaction.subscribes.map .subscribe)).bareCalls = σ.bareCalls := by
    rw [bareCalls, hcalls, bareCalls]
  have hrun : σ.run reaction.moves = (σ.run (reaction.subscribes.map .subscribe)).step
      (if reaction.fails then .fails else .returns) := run_append _ _ _
  rw [h] at hrounds
  rw [hrun]
  generalize σ.run (reaction.subscribes.map .subscribe) = τ at *
  cases reaction.fails with
  | true =>
    refine ⟨τ.abort, ?_, ?_, ?_, rfl⟩
    · rw [abort, hrounds]
      exact hstore
    · rw [abort, hrounds]
    · rw [abort, hrounds]
      exact hbare
  | false =>
    refine ⟨{ τ with rounds := rounds }, hstore, rfl, hbare, ?_⟩
    show τ.answer = _
    rw [answer, hrounds]
    rfl

/-- **A round of reactions** is what the store makes of it: by induction on the subscribers that
wait. -/
theorem run_roundMoves [BEq γ] (react : γ → Reaction γ) (σ : Session γ)
    (r : Round (Subscription γ)) :
    let σ' := (σ.proceed r).run (roundMoves react (r.waiting.map (·.callback)))
    let u := Store.notify react r.settings σ.bareStore (r.waiting.map (·.callback))
    σ'.bareStore = u.store ∧ σ'.rounds = σ.rounds ∧
      σ'.bareCalls = σ.bareCalls ++ u.deliveries := by
  obtain ⟨n, settings, waiting⟩ := r
  induction waiting generalizing σ with
  | nil => exact ⟨rfl, rfl, (List.append_nil _).symm⟩
  | cons s waiting ih =>
    intro σ' u
    let called := σ.proceed ⟨n, settings, s :: waiting⟩
    have hcalled : called.bareCalls = σ.bareCalls ++ [⟨s.callback, settings, σ.bareStore.get⟩] :=
      List.map_append
    -- after the call the round has one subscriber fewer to tell
    obtain ⟨τ, hstore, hrounds, hcalls, hrun⟩ :=
      @run_moves γ called _ (react s.callback) ⟨n, settings, waiting⟩ σ.rounds rfl
    have hσ' : σ' = (called.run (react s.callback).moves).run
        (if (react s.callback).fails then [] else roundMoves react (waiting.map (·.callback))) :=
      run_append _ _ _
    rw [hcalled] at hcalls
    rw [hσ', hrun]
    show _ = (Store.notify react settings σ.bareStore (s.callback :: _)).store ∧ _ ∧
      _ = _ ++ (Store.notify react settings σ.bareStore (s.callback :: _)).deliveries
    rw [Store.notify]
    cases (react s.callback).fails with
    | true => exact ⟨hstore, hrounds, hcalls⟩
    | false =>
      obtain ⟨hstore', hrounds', hcalls'⟩ := ih τ
      rw [hstore] at hstore' hcalls'
      rw [hcalls, List.append_assoc] at hcalls'
      exact ⟨hstore', hrounds'.trans hrounds, hcalls'⟩

/-- **The store is a session**: where subscribers only react, what an installation leads to is what
the store answers. -/
theorem run_install [BEq γ] (react : γ → Reaction γ) (σ : Session γ) (settings : Settings) :
    let σ' := (σ.install settings).run
      (roundMoves react (σ.store.subscribers.map (·.callback)))
    let u := σ.bareStore.install react settings
    σ'.bareStore = u.store ∧ σ'.rounds = σ.rounds ∧
      σ'.bareCalls = σ.bareCalls ++ u.deliveries :=
  run_roundMoves react
    { σ with
      store := { σ.store with snapshot := settings }
      installations := σ.installations ++ [⟨settings, σ.store.subscribers⟩]
      overtaken := σ.overtaken ++ (σ.rounds.filter (!·.waiting.isEmpty)).map (·.number) }
    ⟨σ.installations.length, settings, σ.store.subscribers⟩

end Session
end SourceStamp
