import Mathlib.Data.List.Induction
import SourceStamp.Settings.Handles

/-!
# Subscriptions and their handles

How often a change calls a callback that was subscribed several times.

- `Client.live`: how many subscriptions of a callback there are whose own handle was not called, and
  `Client.subscriptions`: how many the store has.
- `Client.Steals`: the call of a handle that was called before takes a subscription of another one.
- `Client.change?_spec`: a change calls each subscription of the store once.
- `Client.step_counts`: what a step does to the two numbers, and `Client.step_le_live`,
  `Client.step_eq_live_iff`: how they compare after it.
- `Client.not_steals_of_nodup`: handles that are called once do not steal.
- `Client.run_calls_live`: a callback is never called more often than it has live subscriptions, and
  it is always called as often exactly if no call of a handle steals.
-/

namespace SourceStamp

/-- How often an update calls a subscriber. -/
def Update.calls {κ : Type} [BEq κ] (u : Update κ) (c : κ) : Nat :=
  (u.deliveries.map (·.subscriber)).count c

/-- The handle that a use calls. -/
def Use.released? {κ : Type} : Use κ → Option Nat
  | .release number => some number
  | _ => none

namespace Store

variable {κ : Type}

/-- Subscribers that only take note are all called, and the store stays as it is. -/
theorem notify_none (settings : Settings) (s : Store κ) (subscribers : List κ) :
    notify (fun _ => .none) settings s subscribers =
      ⟨s, subscribers.map fun c => ⟨c, settings, s.get⟩, false⟩ := by
  induction subscribers with
  | nil => rfl
  | cons c rest ih =>
    have hrest : (Reaction.none (κ := κ)).subscribes.foldl subscribe s = s := rfl
    rw [notify, hrest, ih]
    rfl

theorem install_none (s : Store κ) (settings : Settings) :
    let u := s.install (fun _ => .none) settings
    u.failed = false ∧ u.deliveries.map (·.subscriber) = s.subscribers ∧
      u.store.subscribers = s.subscribers := by
  intro u
  have hu : u = _ := notify_none settings { s with snapshot := settings } s.subscribers
  rw [hu]
  refine ⟨rfl, ?_, rfl⟩
  rw [List.map_map]
  exact s.subscribers.map_id

end Store

namespace Client

variable {κ : Type} [DecidableEq κ] {k : Client κ} {c : κ} {number : Nat}

/-! ## Views -/

/-- How many subscriptions of a callback the store has. -/
def subscriptions (k : Client κ) (c : κ) : Nat := k.store.subscribers.count c

/-- How many subscriptions of a callback there are whose own handle was not called. -/
def live (k : Client κ) (c : κ) : Nat := k.handles.count ⟨c, false⟩

/-- The handle was called before, and what a call removes now is a subscription of another one. -/
def Steals (k : Client κ) (c : κ) (number : Nat) : Prop :=
  k.handles[number]? = some ⟨c, true⟩ ∧ 0 < k.subscriptions c

/-! ## What a use does -/

/-- A change calls each subscription once, and none of them fails. -/
theorem change?_spec {change : Change} {u : Update κ} (h : k.change? change = some u) :
    u.failed = false ∧ (∀ c, u.calls c = k.subscriptions c) ∧
      u.store.subscribers = k.store.subscribers := by
  obtain ⟨s, settings, hs, rfl⟩ : ∃ (s : Store κ) (settings : Settings),
      s.subscribers = k.store.subscribers ∧ u = s.install (fun _ => .none) settings := by
    cases change with
    | configure o =>
      cases hupdated : k.store.updated o with
      | ok settings =>
        rw [change?, Store.configure, hupdated] at h
        exact ⟨k.store, settings, rfl, (Option.some.inj h).symm⟩
      | error e =>
        rw [change?, Store.configure, hupdated] at h
        cases h
    | reset defaults =>
      exact ⟨k.store.setDefaults defaults, defaults, rfl, (Option.some.inj h).symm⟩
  obtain ⟨hfailed, hcalls, hsubscribers⟩ := s.install_none settings
  refine ⟨hfailed, fun c => ?_, hsubscribers.trans hs⟩
  rw [Update.calls, hcalls, hs]
  rfl

omit [DecidableEq κ] in
theorem exists_change? (k : Client κ) : ∃ change u, k.change? change = some u :=
  ⟨.reset k.store.defaults, _, rfl⟩

theorem step_change (k : Client κ) (change : Change) :
    (k.step (.change change)).store.subscribers = k.store.subscribers ∧
      (k.step (.change change)).handles = k.handles := by
  rw [step]
  cases hchange : k.change? change with
  | none => exact ⟨rfl, rfl⟩
  | some u => exact ⟨(change?_spec hchange).2.2, rfl⟩

theorem subscribe_counts (k : Client κ) (callback c : κ) :
    (k.subscribe callback).subscriptions c = k.subscriptions c + (if callback = c then 1 else 0) ∧
      (k.subscribe callback).live c = k.live c + (if callback = c then 1 else 0) := by
  constructor
  · show (k.store.subscribers ++ [callback]).count c = _
    rw [List.count_append, List.count_singleton]
    simp only [beq_iff_eq, subscriptions]
  · show (k.handles ++ [Handle.mk callback false]).count (Handle.mk c false) = _
    rw [List.count_append, List.count_singleton]
    simp only [beq_iff_eq, Handle.mk.injEq, and_true, live]

/-- The callback of a handle loses a subscription, if it has one. The handle is called then. -/
theorem release_counts {h : Handle κ} (hhandle : k.handles[number]? = some h) (c : κ) :
    (k.release number).subscriptions c = k.subscriptions c - (if h.callback = c then 1 else 0) ∧
      (k.release number).live c = k.live c - (if h = ⟨c, false⟩ then 1 else 0) := by
  obtain ⟨hlt, hget⟩ := List.getElem?_eq_some_iff.mp hhandle
  rw [release, hhandle]
  constructor
  · show (k.store.subscribers.erase h.callback).count c = _
    rw [List.count_erase]
    simp only [beq_iff_eq, subscriptions]
  · show (k.handles.set number ⟨h.callback, true⟩).count ⟨c, false⟩ = _
    rw [List.count_set hlt, hget]
    simp [live]

/-- **Inversion**: what a use does to the two numbers of a callback. It subscribes the callback, it
calls a handle of the callback, or it does nothing about it. -/
theorem step_counts (k : Client κ) (use : Use κ) (c : κ) :
    (use = .subscribe c ∧ (k.step use).subscriptions c = k.subscriptions c + 1 ∧
        (k.step use).live c = k.live c + 1) ∨
      (∃ number called, use = .release number ∧ k.handles[number]? = some ⟨c, called⟩ ∧
        (k.step use).subscriptions c = k.subscriptions c - 1 ∧
        (k.step use).live c = k.live c - if called then 0 else 1) ∨
      ((∀ number called, use = .release number → k.handles[number]? ≠ some ⟨c, called⟩) ∧
        (k.step use).subscriptions c = k.subscriptions c ∧ (k.step use).live c = k.live c) := by
  cases use with
  | subscribe callback =>
    obtain ⟨hsubscriptions, hlive⟩ := k.subscribe_counts callback c
    rw [step, hsubscriptions, hlive]
    by_cases hc : callback = c
    · rw [if_pos hc, hc]
      exact .inl ⟨rfl, rfl, rfl⟩
    · rw [if_neg hc]
      exact .inr (.inr ⟨nofun, rfl, rfl⟩)
  | release number =>
    rw [step]
    cases hhandle : k.handles[number]? with
    | none =>
      rw [release, hhandle]
      refine .inr (.inr ⟨fun n called hn heq => ?_, rfl, rfl⟩)
      rw [← Use.release.inj hn, hhandle] at heq
      cases heq
    | some h =>
      obtain ⟨hsubscriptions, hlive⟩ := release_counts hhandle c
      obtain ⟨callback, called⟩ := h
      by_cases hc : callback = c
      · -- a handle of the callback, which is live if it was not called before
        subst hc
        refine .inr (.inl ⟨number, called, rfl, hhandle, ?_, ?_⟩)
        · rw [hsubscriptions, if_pos rfl]
        · rw [hlive]
          cases called <;> simp
      · refine .inr (.inr ⟨fun n called' hn heq => ?_, ?_, ?_⟩)
        · rw [← Use.release.inj hn, hhandle] at heq
          exact hc (congrArg Handle.callback (Option.some.inj heq))
        · rw [hsubscriptions, if_neg hc, Nat.sub_zero]
        · rw [hlive, if_neg fun heq => hc (congrArg Handle.callback heq), Nat.sub_zero]
  | change change =>
    obtain ⟨hsubscribers, hhandles⟩ := k.step_change change
    refine .inr (.inr ⟨nofun, congrArg (List.count c) hsubscribers, ?_⟩)
    rw [live, hhandles, live]

/-! ## What a step keeps -/

/-- **The step.** A callback never has more subscriptions than live ones. -/
theorem step_le_live (h : k.subscriptions c ≤ k.live c) (use : Use κ) :
    (k.step use).subscriptions c ≤ (k.step use).live c := by
  rcases k.step_counts use c with ⟨-, hsubscriptions, hlive⟩ |
    ⟨number, called, -, -, hsubscriptions, hlive⟩ | ⟨-, hsubscriptions, hlive⟩
  · omega
  · split at hlive <;> omega
  · omega

/-- **The step, exactly.** From then on a callback has fewer, if a handle steals. -/
theorem step_eq_live_iff (h : k.subscriptions c = k.live c) (use : Use κ) :
    (k.step use).subscriptions c = (k.step use).live c ↔
      ∀ number, use = .release number → ¬ k.Steals c number := by
  rcases k.step_counts use c with ⟨rfl, hsubscriptions, hlive⟩ |
    ⟨number, called, rfl, hhandle, hsubscriptions, hlive⟩ | ⟨hother, hsubscriptions, hlive⟩
  · exact iff_of_true (by omega) nofun
  · cases called with
    | false =>
      refine iff_of_true ?_ fun n hn hsteals => ?_
      · rw [hsubscriptions, hlive, h]
        rfl
      · rw [← Use.release.inj hn, Steals, hhandle] at hsteals
        cases hsteals.1
    | true =>
      rw [if_pos rfl, Nat.sub_zero] at hlive
      constructor
      · intro heq n _ hsteals
        have hpos := hsteals.2
        omega
      · intro hnone
        have hzero : ¬ 0 < k.subscriptions c := fun hpos => hnone number rfl ⟨hhandle, hpos⟩
        omega
  · refine iff_of_true (by omega) fun number hrelease hsteals => ?_
    exact hother number true hrelease hsteals.1

/-! ## Runs -/

theorem run_concat (k : Client κ) (uses : List (Use κ)) (use : Use κ) :
    k.run (uses ++ [use]) = (k.run uses).step use := List.foldl_append

theorem run_le_live (defaults : Settings) (uses : List (Use κ)) (c : κ) :
    ((start defaults).run uses).subscriptions c ≤ ((start defaults).run uses).live c := by
  induction uses using List.reverseRecOn with
  | nil => exact Nat.le_refl 0
  | append_singleton uses use ih =>
    rw [run_concat]
    exact step_le_live ih use

/-- The numbers agree all along exactly if nothing is stolen. -/
theorem run_eq_live_iff (defaults : Settings) (uses : List (Use κ)) (c : κ) :
    (∀ before, before <+: uses → ((start defaults).run before).subscriptions c =
        ((start defaults).run before).live c) ↔
      ∀ before number, before ++ [.release number] <+: uses →
        ¬ ((start defaults).run before).Steals c number := by
  constructor
  · intro heq before number hinitial
    have hnow := heq _ hinitial
    rw [run_concat] at hnow
    have hbefore := heq before ((List.prefix_append _ _).trans hinitial)
    exact (step_eq_live_iff hbefore _).mp hnow number rfl
  · intro hnone before
    -- the numbers agree at the start, and each step keeps that unless a handle steals there
    induction before using List.reverseRecOn with
    | nil => exact fun _ => rfl
    | append_singleton before use ih =>
      intro hinitial
      rw [run_concat]
      refine (step_eq_live_iff (ih ((List.prefix_append _ _).trans hinitial)) use).mpr ?_
      rintro number rfl
      exact hnone before number hinitial

/-! ## Handles that are called once -/

theorem mem_of_called {defaults : Settings} {uses : List (Use κ)}
    (h : ((start defaults).run uses).handles[number]? = some ⟨c, true⟩) :
    .release number ∈ uses := by
  -- from the last use on: only the call of a handle marks it, and no other handle
  induction uses using List.reverseRecOn with
  | nil => cases h
  | append_singleton uses use ih =>
    rw [List.mem_append, List.mem_singleton]
    rw [run_concat] at h
    generalize (start defaults).run uses = k at h ih
    cases use with
    | subscribe callback =>
      refine .inl (ih ?_)
      change (k.handles ++ [Handle.mk callback false])[number]? = _ at h
      rw [List.getElem?_append] at h
      split at h
      · exact h
      · -- a new handle was not called
        rw [List.getElem?_singleton] at h
        split at h <;> cases h
    | release n =>
      by_cases hn : number = n
      · exact .inr (congrArg Use.release hn)
      · refine .inl (ih ?_)
        rw [step, release] at h
        cases hhandle : k.handles[n]? with
        | none =>
          rw [hhandle] at h
          exact h
        | some handle =>
          rw [hhandle] at h
          change (k.handles.set n _)[number]? = _ at h
          rwa [List.getElem?_set_ne (Ne.symm hn)] at h
    | change change =>
      rw [(k.step_change change).2] at h
      exact .inl (ih h)

/-- No handle steals where each is called once at most. -/
theorem not_steals_of_nodup (defaults : Settings) {uses : List (Use κ)} (c : κ)
    (h : (uses.filterMap Use.released?).Nodup) (before : List (Use κ)) (number : Nat)
    (hinitial : before ++ [.release number] <+: uses) :
    ¬ ((start defaults).run before).Steals c number := by
  intro hsteals
  have hmem : number ∈ before.filterMap Use.released? :=
    List.mem_filterMap.mpr ⟨_, mem_of_called hsteals.1, rfl⟩
  have hnodup := (hinitial.sublist.filterMap Use.released?).nodup h
  rw [List.filterMap_append] at hnodup
  exact (List.nodup_append.mp hnodup).2.2 number hmem number (List.mem_singleton_self _) rfl

/-! ## Calls -/

/-- **Calls of a callback**, which may have several subscriptions. A change never calls it more
often than it has live ones. It is called exactly as often, at each moment of a run, if and only if
no handle that was called before is called again while the callback is subscribed. -/
theorem run_calls_live (defaults : Settings) (uses : List (Use κ)) (c : κ) :
    (∀ change u, ((start defaults).run uses).change? change = some u →
      u.failed = false ∧ u.calls c ≤ ((start defaults).run uses).live c) ∧
    ((∀ before, before <+: uses →
        ∀ change u, ((start defaults).run before).change? change = some u →
          u.calls c = ((start defaults).run before).live c) ↔
      ∀ before number, before ++ [.release number] <+: uses →
        ¬ ((start defaults).run before).Steals c number) := by
  constructor
  · intro change u hchange
    obtain ⟨hfailed, hcalls, -⟩ := change?_spec hchange
    rw [hcalls]
    exact ⟨hfailed, run_le_live defaults uses c⟩
  · rw [← run_eq_live_iff]
    refine forall₂_congr fun before _ => ⟨fun hcalls => ?_, fun heq change u hchange => ?_⟩
    · obtain ⟨change, u, hchange⟩ := exists_change? ((start defaults).run before)
      rw [← (change?_spec hchange).2.1]
      exact hcalls change u hchange
    · rw [(change?_spec hchange).2.1]
      exact heq

/-- Two subscriptions of one callback, and calls of one handle. -/
def calledTwice : List (Use Bool) :=
  [.subscribe true, .subscribe true, .release 0, .release 0]

/-- Two subscriptions of one callback, and a call of each handle. -/
def calledOnce : List (Use Bool) :=
  [.subscribe true, .subscribe true, .release 1, .subscribe true, .release 0]

/-- The second call of a handle takes the last subscription, so the callback is not called any more.
If each handle is called once it is called for the subscription that is left. -/
theorem run_calls_live_twice :
    (∃ u, ((start .base).run calledTwice).change? (.reset .base) = some u ∧ u.failed = false ∧
      u.calls true = 0 ∧ ((start .base).run calledTwice).live true = 1) ∧
    ((start .base).run (calledTwice.take 3)).Steals true 0 ∧
    ¬ (∀ before, before <+: calledTwice →
        ∀ change u, ((start .base).run before).change? change = some u →
          u.calls true = ((start .base).run before).live true) ∧
    ∃ u, ((start .base).run calledOnce).change? (.reset .base) = some u ∧
      u.calls true = ((start .base).run calledOnce).live true ∧ u.calls true = 1 := by
  have hsteals : ((start .base).run (calledTwice.take 3)).Steals true 0 := ⟨rfl, by decide⟩
  refine ⟨⟨_, rfl, ((run_calls_live .base calledTwice true).1 (.reset .base) _ rfl).1, rfl, rfl⟩,
    hsteals, ?_, _, rfl, ?_, rfl⟩
  · intro hexact
    exact (run_calls_live .base calledTwice true).2.mp hexact _ 0 (List.prefix_refl _) hsteals
  · exact (run_calls_live .base calledOnce true).2.mpr
      (not_steals_of_nodup .base true (by decide)) _ (List.prefix_refl _) (.reset .base) _ rfl

end Client
end SourceStamp
