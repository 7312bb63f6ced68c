import SourceStamp.Settings.Session

/-!
# The calls of a session

Subscribers may fail, and may use the store while they run. What holds of their calls all the same:

- `Session.step_cases`: what a move can do.
- `Session.Accounts`: the invariant that ties the calls to the installations, and `Session.Informed`
  the one that ties them to the subscriptions that are there now. Both are kept when a round goes
  on (`Accounts.proceed`, `Informed.proceed`), so by every step.
- `Session.run_calls`: an installation is told to its subscribers in order, to each of them once,
  and to all of them exactly when no failure cuts its round short. Between operations a subscriber
  knows the snapshot, unless the latest round was cut short, or the round of its last call was
  overtaken.
-/

namespace SourceStamp
namespace Session

variable {γ : Type} {σ : Session γ} {r : Round (Subscription γ)} {settings : Settings}

/-! ## Views -/

/-- The calls that tell of an installation. -/
def callsFor (σ : Session γ) (n : Nat) : List (Delivery (Subscription γ)) :=
  (σ.calls.filter (·.1 == n)).map (·.2)

/-- The subscribers that were told of an installation, in order. -/
def told (σ : Session γ) (n : Nat) : List (Subscription γ) := (σ.callsFor n).map (·.subscriber)

/-- The last call of a subscription, with the number of the installation that it tells of. -/
def lastCall? (σ : Session γ) (s : Subscription γ) : Option (Nat × Delivery (Subscription γ)) :=
  (σ.calls.filter (·.2.subscriber.number == s.number)).getLast?

/-- The session with a round put on top of those under way. -/
def push (σ : Session γ) (r : Round (Subscription γ)) : Session γ :=
  { σ with rounds := r :: σ.rounds }

/-- The session right after its snapshot is replaced, before anyone is told. -/
def replaced (σ : Session γ) (settings : Settings) : Session γ :=
  { σ with
    store := { σ.store with snapshot := settings }
    installations := σ.installations ++ [⟨settings, σ.store.subscribers⟩]
    overtaken := σ.overtaken ++ (σ.rounds.filter (!·.waiting.isEmpty)).map (·.number) }

/-- The round of an installation, before anyone is told. -/
def newRound (σ : Session γ) (settings : Settings) : Round (Subscription γ) :=
  ⟨σ.installations.length, settings, σ.store.subscribers⟩

theorem install_eq (σ : Session γ) (settings : Settings) :
    σ.install settings = (σ.replaced settings).proceed (σ.newRound settings) := rfl

theorem proceed_of_nil (h : r.waiting = []) : σ.proceed r = σ := by
  rw [proceed, h]

theorem proceed_of_cons {s : Subscription γ} {waiting : List (Subscription γ)}
    (h : r.waiting = s :: waiting) :
    σ.proceed r =
      { σ with
        rounds := { r with waiting := waiting } :: σ.rounds
        calls := σ.calls ++ [(r.number, ⟨s, r.settings, σ.store.get⟩)] } := by
  rw [proceed, h]

theorem answer_of_nil (h : σ.rounds = []) : σ.answer = σ := by
  rw [answer, h]

theorem answer_of_cons {rounds : List (Round (Subscription γ))} (h : σ.rounds = r :: rounds) :
    σ.answer = { σ with rounds := rounds }.proceed r := by
  rw [answer, h]

theorem abort_of_nil (h : σ.rounds = []) : σ.abort = σ := by
  rw [abort, h]

theorem abort_of_cons {rounds : List (Round (Subscription γ))} (h : σ.rounds = r :: rounds) :
    σ.abort =
      { σ with
        rounds := rounds
        cutShort := if r.waiting.isEmpty then σ.cutShort else σ.cutShort ++ [r.number] } := by
  rw [abort, h]

/-- A failure cuts the round of the subscriber short, unless nobody was waiting in it. -/
theorem mem_cutShort_iff {cutShort : List Nat} {n : Nat} :
    n ∈ (if r.waiting.isEmpty then cutShort else cutShort ++ [r.number]) ↔
      n ∈ cutShort ∨ n = r.number ∧ r.waiting ≠ [] := by
  split
  · next hempty => simp [List.isEmpty_iff.mp hempty]
  · next hempty =>
    have hne : r.waiting ≠ [] := fun heq => hempty (List.isEmpty_iff.mpr heq)
    simp [hne]

/-- What is kept when a round goes on, is kept when a subscriber returns. -/
theorem answer_induction {P : Session γ → Prop}
    (hproceed : ∀ (σ : Session γ) (r : Round (Subscription γ)), P (σ.push r) → P (σ.proceed r))
    (h : P σ) : P σ.answer := by
  cases hrounds : σ.rounds with
  | nil =>
    rw [answer_of_nil hrounds]
    exact h
  | cons r rounds =>
    have hpush : { σ with rounds := rounds }.push r = σ := by
      rw [push, ← hrounds]
    rw [answer_of_cons hrounds]
    exact hproceed _ _ (hpush ▸ h)

/-! ## What a move can do -/

/-- **Inversion**: a move installs settings, adds a subscription, ends the call of a subscriber, or
changes the store without either. -/
theorem step_cases [BEq γ] (σ : Session γ) (m : Move γ) :
    (∃ settings, σ.step m = σ.install settings) ∨ (∃ c, σ.step m = σ.subscribe c) ∨
      (m = .returns ∧ σ.step m = σ.answer) ∨ (m = .fails ∧ σ.step m = σ.abort) ∨
      ∃ store : Store (Subscription γ), store.snapshot = σ.store.snapshot ∧
        store.subscribers.Sublist σ.store.subscribers ∧ σ.step m = { σ with store := store } := by
  have hkept : ∀ store : Store (Subscription γ), store.snapshot = σ.store.snapshot →
      store.subscribers.Sublist σ.store.subscribers → σ.step m = { σ with store := store } →
      ∃ store : Store (Subscription γ), store.snapshot = σ.store.snapshot ∧
        store.subscribers.Sublist σ.store.subscribers ∧ σ.step m = { σ with store := store } :=
    fun store hsnapshot hsub hstep => ⟨store, hsnapshot, hsub, hstep⟩
  cases m with
  | configure o =>
    rw [step, configure] at hkept ⊢
    cases hupdated : σ.store.updated o with
    | ok settings => exact .inl ⟨settings, rfl⟩
    | error e =>
      rw [hupdated] at hkept
      exact .inr (.inr (.inr (.inr (hkept σ.store rfl (List.Sublist.refl _) rfl))))
  | reset => exact .inl ⟨_, rfl⟩
  | subscribe c => exact .inr (.inl ⟨c, rfl⟩)
  | returns => exact .inr (.inr (.inl ⟨rfl, rfl⟩))
  | fails => exact .inr (.inr (.inr (.inl ⟨rfl, rfl⟩)))
  | unsubscribe c =>
    exact .inr (.inr (.inr (.inr (hkept (σ.store.unsubscribe ⟨0, c⟩) rfl List.erase_sublist rfl))))
  | setDefaults d =>
    exact .inr (.inr (.inr (.inr (hkept (σ.store.setDefaults d) rfl (List.Sublist.refl _) rfl))))
  | enter settings =>
    exact .inr (.inr (.inr (.inr (hkept (σ.store.enter settings) rfl (List.Sublist.refl _) rfl))))
  | leave => exact .inr (.inr (.inr (.inr (hkept σ.store.leave rfl (List.Sublist.refl _) rfl))))

/-- What every move keeps, a run keeps. -/
theorem run_induction [BEq γ] {P : Session γ → Prop} (hstep : ∀ σ m, P σ → P (step σ m))
    (hstart : P σ) (moves : List (Move γ)) : P (σ.run moves) := by
  induction moves generalizing σ with
  | nil => exact hstart
  | cons m moves ih => exact ih (hstep σ m hstart)

/-! ## Calls and installations -/

/-- The calls that were made are those that the installations led to. -/
structure Accounts (σ : Session γ) : Prop where
  snapshot_eq : ∀ i, σ.installations.getLast? = some i → σ.store.snapshot = i.settings
  call_at : ∀ c ∈ σ.calls, ∃ i, σ.installations[c.1]? = some i ∧ c.2.settings = i.settings
  /-- The innermost round is that of the latest installation. -/
  descending : σ.rounds.Pairwise fun r r' => r'.number < r.number
  round_at : ∀ r ∈ σ.rounds, ∃ i, σ.installations[r.number]? = some i ∧ r.settings = i.settings ∧
    σ.told r.number ++ r.waiting = i.subscribers
  told_prefix : ∀ n i, σ.installations[n]? = some i → σ.told n <+: i.subscribers
  told_all : ∀ n i, σ.installations[n]? = some i → (∀ r ∈ σ.rounds, r.number ≠ n) →
    (σ.told n = i.subscribers ↔ n ∉ σ.cutShort)
  cutShort_over : ∀ n ∈ σ.cutShort, n < σ.installations.length ∧ ∀ r ∈ σ.rounds, r.number ≠ n

namespace Accounts

theorem start (defaults : Settings) : Accounts (Session.start (γ := γ) defaults) where
  snapshot_eq := fun i h => by cases h
  call_at := fun c h => by cases h
  descending := List.Pairwise.nil
  round_at := fun r h => by cases h
  told_prefix := fun n i h => by cases h
  told_all := fun n i h => by cases h
  cutShort_over := fun n h => by cases h

/-- A move that leaves the snapshot alone, and calls nobody. -/
theorem of_store (h : Accounts σ) (store : Store (Subscription γ))
    (hsnapshot : store.snapshot = σ.store.snapshot) (n : Nat) :
    Accounts { σ with store := store, subscribed := n } where
  snapshot_eq := fun i hi => hsnapshot.trans (h.snapshot_eq i hi)
  call_at := h.call_at
  descending := h.descending
  round_at := h.round_at
  told_prefix := h.told_prefix
  told_all := h.told_all
  cutShort_over := h.cutShort_over

theorem number_lt (h : Accounts σ) (hr : r ∈ σ.rounds) : r.number < σ.installations.length := by
  obtain ⟨i, hi, -, -⟩ := h.round_at r hr
  exact (List.getElem?_eq_some_iff.mp hi).1

/-- One more call tells of its own installation, and of no other one. -/
theorem told_call (σ : Session γ) (rounds : List (Round (Subscription γ))) (m : Nat)
    (d : Delivery (Subscription γ)) (n : Nat) :
    told { σ with rounds := rounds, calls := σ.calls ++ [(m, d)] } n =
      σ.told n ++ if m = n then [d.subscriber] else [] := by
  simp only [told, callsFor, List.filter_append, List.map_append]
  split
  · next h => simp [h]
  · next h => simp [h]

/-- A round that goes on calls its next subscriber, and one that is over has called all of them. -/
theorem proceed (h : Accounts (σ.push r)) : Accounts (σ.proceed r) := by
  obtain ⟨hbelow, hrest⟩ := List.pairwise_cons.mp h.descending
  obtain ⟨i, hi, hsettings, hall⟩ := h.round_at r List.mem_cons_self
  cases hwaiting : r.waiting with
  | nil =>
    -- the round is over: all its subscribers were told, and it was not cut short
    rw [proceed_of_nil hwaiting]
    refine ⟨h.snapshot_eq, h.call_at, hrest, fun r' hr' => h.round_at r' (List.mem_cons_of_mem r hr'),
      h.told_prefix, ?_, ?_⟩
    · intro n j hj hover
      by_cases hn : r.number = n
      · subst hn
        obtain rfl : i = j := Option.some.inj (hi.symm.trans hj)
        rw [hwaiting, List.append_nil] at hall
        exact iff_of_true hall fun hcut => (h.cutShort_over _ hcut).2 r List.mem_cons_self rfl
      · exact h.told_all n j hj (List.forall_mem_cons.mpr ⟨hn, hover⟩)
    · intro n hn
      obtain ⟨hlt, hover⟩ := h.cutShort_over n hn
      exact ⟨hlt, fun r' hr' => hover r' (List.mem_cons_of_mem r hr')⟩
  | cons s waiting =>
    -- the next subscriber goes from those that wait to those that were told
    rw [proceed_of_cons hwaiting]
    rw [hwaiting] at hall
    refine ⟨h.snapshot_eq, ?_, List.pairwise_cons.mpr ⟨hbelow, hrest⟩, ?_, ?_, ?_, ?_⟩
    · intro c hc
      rcases List.mem_append.mp hc with hc | hc
      · exact h.call_at c hc
      · rw [List.mem_singleton.mp hc]
        exact ⟨i, hi, hsettings⟩
    · refine List.forall_mem_cons.mpr ⟨⟨i, hi, hsettings, ?_⟩, ?_⟩
      · rw [told_call, if_pos rfl, List.append_assoc]
        exact hall
      · intro r' hr'
        rw [told_call, if_neg (Nat.ne_of_gt (hbelow r' hr')), List.append_nil]
        exact h.round_at r' (List.mem_cons_of_mem r hr')
    · intro n j hj
      rw [told_call]
      split
      · next hn =>
        subst hn
        have heq : i = j := Option.some.inj (hi.symm.trans hj)
        rw [← heq, ← hall]
        exact ⟨waiting, by rw [List.append_assoc]; rfl⟩
      · rw [List.append_nil]
        exact h.told_prefix n j hj
    · intro n j hj hover
      obtain ⟨hn, hover⟩ := List.forall_mem_cons.mp hover
      rw [told_call, if_neg hn, List.append_nil]
      exact h.told_all n j hj (List.forall_mem_cons.mpr ⟨hn, hover⟩)
    · intro n hn
      obtain ⟨hlt, hover⟩ := h.cutShort_over n hn
      exact ⟨hlt, List.forall_mem_cons.mpr (List.forall_mem_cons.mp hover)⟩

/-- A new installation begins a round in which nobody is called yet. -/
theorem replaced (h : Accounts σ) (settings : Settings) :
    Accounts ((σ.replaced settings).push (σ.newRound settings)) := by
  have hold : ∀ {n : Nat} {i : Installation (Subscription γ)}, σ.installations[n]? = some i →
      (σ.installations ++ [⟨settings, σ.store.subscribers⟩])[n]? = some i := fun hi =>
    (List.getElem?_append_left (List.getElem?_eq_some_iff.mp hi).1).trans hi
  -- no call tells of an installation that is still to come
  have hnew : σ.told σ.installations.length = [] := by
    refine List.map_eq_nil_iff.mpr (List.map_eq_nil_iff.mpr (List.filter_eq_nil_iff.mpr ?_))
    intro c hc heq
    obtain ⟨i, hi, -⟩ := h.call_at c hc
    exact Nat.ne_of_lt (List.getElem?_eq_some_iff.mp hi).1 (beq_iff_eq.mp heq)
  have hcases : ∀ {n : Nat} {i : Installation (Subscription γ)},
      (σ.installations ++ [⟨settings, σ.store.subscribers⟩])[n]? = some i →
      σ.installations[n]? = some i ∨ n = σ.installations.length := by
    intro n i hi
    rcases Nat.lt_or_ge n σ.installations.length with hlt | hge
    · exact .inl ((List.getElem?_append_left hlt).symm.trans hi)
    · have hlt := (List.getElem?_eq_some_iff.mp hi).1
      rw [List.length_append, List.length_singleton] at hlt
      exact .inr (by omega)
  refine ⟨?_, ?_, ?_, ?_, ?_, ?_, ?_⟩
  · intro i hi
    have hlast := List.getLast?_concat.symm.trans hi
    rw [← Option.some.inj hlast]
    rfl
  · intro c hc
    obtain ⟨i, hi, hsettings⟩ := h.call_at c hc
    exact ⟨i, hold hi, hsettings⟩
  · exact List.pairwise_cons.mpr ⟨fun r hr => h.number_lt hr, h.descending⟩
  · have hnow : (σ.installations ++ [⟨settings, σ.store.subscribers⟩])[σ.installations.length]? =
        some ⟨settings, σ.store.subscribers⟩ := List.getElem?_concat_length
    intro r hr
    rcases List.mem_cons.mp hr with rfl | hr
    · refine ⟨_, hnow, rfl, ?_⟩
      show σ.told σ.installations.length ++ σ.store.subscribers = σ.store.subscribers
      rw [hnew, List.nil_append]
    · obtain ⟨i, hi, hrest⟩ := h.round_at r hr
      exact ⟨i, hold hi, hrest⟩
  · intro n i hi
    rcases hcases hi with hi | rfl
    · exact h.told_prefix n i hi
    · show σ.told σ.installations.length <+: i.subscribers
      rw [hnew]
      exact List.nil_prefix
  · intro n i hi hover
    obtain ⟨hn, hover⟩ := List.forall_mem_cons.mp hover
    rcases hcases hi with hi | rfl
    · exact h.told_all n i hi hover
    · exact absurd rfl hn
  · intro n hn
    obtain ⟨hlt, hover⟩ := h.cutShort_over n hn
    refine ⟨?_, List.forall_mem_cons.mpr ⟨Nat.ne_of_gt hlt, hover⟩⟩
    show n < (σ.installations ++ [_]).length
    rw [List.length_append]
    omega

/-- A failure ends a round. The subscribers that were waiting are not called. -/
theorem abort (h : Accounts σ) : Accounts σ.abort := by
  cases hrounds : σ.rounds with
  | nil =>
    rw [abort_of_nil hrounds]
    exact h
  | cons r rounds =>
    have hmem : ∀ r' ∈ rounds, r' ∈ σ.rounds := fun r' hr' => by
      rw [hrounds]
      exact List.mem_cons_of_mem r hr'
    have hr : r ∈ σ.rounds := by rw [hrounds]; exact List.mem_cons_self
    have hover : ∀ {n : Nat}, n ≠ r.number → (∀ r' ∈ rounds, r'.number ≠ n) →
        ∀ r' ∈ σ.rounds, r'.number ≠ n := fun hn hrest => by
      rw [hrounds]
      exact List.forall_mem_cons.mpr ⟨hn.symm, hrest⟩
    have hdescending := h.descending
    rw [hrounds] at hdescending
    obtain ⟨hbelow, hrest⟩ := List.pairwise_cons.mp hdescending
    obtain ⟨i, hi, -, hall⟩ := h.round_at r hr
    rw [abort_of_cons hrounds]
    refine ⟨h.snapshot_eq, h.call_at, hrest, fun r' hr' => h.round_at r' (hmem r' hr'),
      h.told_prefix, ?_, ?_⟩
    · intro n j hj hleft
      rw [mem_cutShort_iff, not_or]
      by_cases hn : n = r.number
      · subst hn
        have heq : i = j := Option.some.inj (hi.symm.trans hj)
        -- the round was under way until now, so no failure has cut it short before
        have hnot : r.number ∉ σ.cutShort := fun hcut => (h.cutShort_over _ hcut).2 r hr rfl
        have htold : σ.told r.number = j.subscribers ↔ r.waiting = [] := by
          rw [← heq, ← hall, List.self_eq_append_right]
        exact htold.trans ⟨fun hnil => ⟨hnot, fun hcut => hcut.2 hnil⟩,
          fun hcut => Classical.not_not.mp fun hne => hcut.2 ⟨rfl, hne⟩⟩
      · exact (h.told_all n j hj (hover hn hleft)).trans
          ⟨fun hnot => ⟨hnot, fun hcut => hn hcut.1⟩, And.left⟩
    · intro n hn
      rcases mem_cutShort_iff.mp hn with hn | ⟨rfl, -⟩
      · obtain ⟨hlt, hne⟩ := h.cutShort_over n hn
        exact ⟨hlt, fun r' hr' => hne r' (hmem r' hr')⟩
      · exact ⟨h.number_lt hr, fun r' hr' => Nat.ne_of_lt (hbelow r' hr')⟩

/-- **The step.** -/
theorem step [BEq γ] (h : Accounts σ) (m : Move γ) : Accounts (σ.step m) := by
  rcases step_cases σ m with ⟨settings, hstep⟩ | ⟨c, hstep⟩ | ⟨-, hstep⟩ | ⟨-, hstep⟩ |
    ⟨store, hsnapshot, -, hstep⟩
  · rw [hstep, install_eq]
    exact (h.replaced settings).proceed
  · rw [hstep]
    exact h.of_store (σ.store.subscribe ⟨σ.subscribed, c⟩) rfl (σ.subscribed + 1)
  · rw [hstep]
    exact answer_induction (fun _ _ h => h.proceed) h
  · rw [hstep]
    exact h.abort
  · rw [hstep]
    exact h.of_store store hsnapshot _

end Accounts

/-! ## Subscriptions and what they know -/

/-- Subscriptions are numbered in the order in which they are made. -/
structure Numbered (σ : Session γ) : Prop where
  subscribers_ordered : σ.store.subscribers.Pairwise (·.number < ·.number)
  installed_ordered : ∀ i ∈ σ.installations, i.subscribers.Pairwise (·.number < ·.number)
  subscriber_lt : ∀ s ∈ σ.store.subscribers, s.number < σ.subscribed
  waiting_lt : ∀ r ∈ σ.rounds, ∀ s ∈ r.waiting, s.number < σ.subscribed
  called_lt : ∀ c ∈ σ.calls, c.2.subscriber.number < σ.subscribed

/-- The number is that of the latest installation. -/
def IsLatest (σ : Session γ) (n : Nat) : Prop := n + 1 = σ.installations.length

/-- What a subscription knows: it was told of the latest installation last, or still waits for that,
or something has come between. -/
structure Informed (σ : Session γ) : Prop where
  overtaken_of_waiting : ∀ r ∈ σ.rounds,
    σ.IsLatest r.number ∨ r.waiting = [] ∨ r.number ∈ σ.overtaken
  last_call : ∀ s ∈ σ.store.subscribers, ∀ c, σ.lastCall? s = some c →
    σ.IsLatest c.1 ∨ c.1 ∈ σ.overtaken ∨ (∃ n ∈ σ.cutShort, σ.IsLatest n) ∨
      ∃ r ∈ σ.rounds, σ.IsLatest r.number ∧ s ∈ r.waiting

namespace Numbered

theorem start (defaults : Settings) : Numbered (Session.start (γ := γ) defaults) where
  subscribers_ordered := List.Pairwise.nil
  installed_ordered := fun i h => by cases h
  subscriber_lt := fun s h => by cases h
  waiting_lt := fun r h => by cases h
  called_lt := fun c h => by cases h

theorem proceed (h : Numbered (σ.push r)) : Numbered (σ.proceed r) := by
  have hrounds : ∀ r' ∈ σ.rounds, ∀ s ∈ r'.waiting, s.number < σ.subscribed := fun r' hr' =>
    h.waiting_lt r' (List.mem_cons_of_mem r hr')
  cases hwaiting : r.waiting with
  | nil =>
    rw [proceed_of_nil hwaiting]
    exact ⟨h.subscribers_ordered, h.installed_ordered, h.subscriber_lt, hrounds, h.called_lt⟩
  | cons s waiting =>
    have hlt := h.waiting_lt r List.mem_cons_self
    rw [hwaiting] at hlt
    obtain ⟨hs, hlt⟩ := List.forall_mem_cons.mp hlt
    rw [proceed_of_cons hwaiting]
    refine ⟨h.subscribers_ordered, h.installed_ordered, h.subscriber_lt, ?_, ?_⟩
    · exact List.forall_mem_cons.mpr ⟨hlt, hrounds⟩
    · intro c hc
      rcases List.mem_append.mp hc with hc | hc
      · exact h.called_lt c hc
      · rw [List.mem_singleton.mp hc]
        exact hs

theorem replaced (h : Numbered σ) (settings : Settings) :
    Numbered ((σ.replaced settings).push (σ.newRound settings)) := by
  refine ⟨h.subscribers_ordered, ?_, h.subscriber_lt, ?_, h.called_lt⟩
  · intro i hi
    rcases List.mem_append.mp hi with hi | hi
    · exact h.installed_ordered i hi
    · rw [List.mem_singleton.mp hi]
      exact h.subscribers_ordered
  · exact List.forall_mem_cons.mpr ⟨h.subscriber_lt, h.waiting_lt⟩

theorem subscribe (h : Numbered σ) (c : γ) : Numbered (σ.subscribe c) := by
  have hlt : ∀ {n : Nat}, n < σ.subscribed → n < σ.subscribed + 1 := Nat.lt_succ_of_lt
  refine ⟨?_, h.installed_ordered, ?_, fun r hr s hs => hlt (h.waiting_lt r hr s hs),
    fun c hc => hlt (h.called_lt c hc)⟩
  · refine List.pairwise_append.mpr ⟨h.subscribers_ordered, List.pairwise_singleton _ _, ?_⟩
    intro s hs s' hs'
    rw [List.mem_singleton.mp hs']
    exact h.subscriber_lt s hs
  · intro s hs
    rcases List.mem_append.mp hs with hs | hs
    · exact hlt (h.subscriber_lt s hs)
    · rw [List.mem_singleton.mp hs]
      exact Nat.lt_succ_self _

theorem of_rounds (h : Numbered σ) {rounds : List (Round (Subscription γ))}
    (hrounds : ∀ r ∈ rounds, r ∈ σ.rounds) (cutShort : List Nat) :
    Numbered { σ with rounds := rounds, cutShort := cutShort } :=
  ⟨h.subscribers_ordered, h.installed_ordered, h.subscriber_lt,
    fun r hr => h.waiting_lt r (hrounds r hr), h.called_lt⟩

/-- **The step.** -/
theorem step [BEq γ] (h : Numbered σ) (m : Move γ) : Numbered (σ.step m) := by
  rcases step_cases σ m with ⟨settings, hstep⟩ | ⟨c, hstep⟩ | ⟨-, hstep⟩ | ⟨-, hstep⟩ |
    ⟨store, -, hsub, hstep⟩
  · rw [hstep, install_eq]
    exact (h.replaced settings).proceed
  · rw [hstep]
    exact h.subscribe c
  · rw [hstep]
    exact answer_induction (fun _ _ h => h.proceed) h
  · rw [hstep]
    cases hrounds : σ.rounds with
    | nil => rwa [abort_of_nil hrounds]
    | cons r rounds =>
      rw [abort_of_cons hrounds]
      refine h.of_rounds (fun r' hr' => ?_) _
      rw [hrounds]
      exact List.mem_cons_of_mem r hr'
  · rw [hstep]
    exact ⟨h.subscribers_ordered.sublist hsub, h.installed_ordered,
      fun s hs => h.subscriber_lt s (hsub.subset hs), h.waiting_lt, h.called_lt⟩

end Numbered

namespace Informed

theorem start (defaults : Settings) : Informed (Session.start (γ := γ) defaults) where
  overtaken_of_waiting := fun r h => by cases h
  last_call := fun s h => by cases h

/-- The last call of a subscription, after one more call. -/
theorem lastCall?_call (σ : Session γ) (rounds : List (Round (Subscription γ))) (m : Nat)
    (d : Delivery (Subscription γ)) (s : Subscription γ) :
    lastCall? { σ with rounds := rounds, calls := σ.calls ++ [(m, d)] } s =
      if d.subscriber.number = s.number then some (m, d) else σ.lastCall? s := by
  simp only [lastCall?, List.filter_append]
  split
  · next h => simp [h]
  · next h => simp [h]

theorem proceed (h : Informed (σ.push r)) : Informed (σ.proceed r) := by
  have hlatest := h.overtaken_of_waiting r List.mem_cons_self
  have hothers : ∀ r' ∈ σ.rounds, σ.IsLatest r'.number ∨ r'.waiting = [] ∨
      r'.number ∈ σ.overtaken := fun r' hr' =>
    h.overtaken_of_waiting r' (List.mem_cons_of_mem r hr')
  cases hwaiting : r.waiting with
  | nil =>
    rw [proceed_of_nil hwaiting]
    refine ⟨hothers, ?_⟩
    intro s hs c hc
    refine (h.last_call s hs c hc).imp_right (Or.imp_right (Or.imp_right ?_))
    rintro ⟨r', hr', hnumber, hmem⟩
    rcases List.mem_cons.mp hr' with rfl | hr'
    · -- nobody waits in the round that is over
      rw [hwaiting] at hmem
      cases hmem
    · exact ⟨r', hr', hnumber, hmem⟩
  | cons s waiting =>
    rw [hwaiting] at hlatest
    have hlatest : σ.IsLatest r.number ∨ r.number ∈ σ.overtaken :=
      hlatest.imp_right fun hr => hr.resolve_left (List.cons_ne_nil s waiting)
    rw [proceed_of_cons hwaiting]
    refine ⟨List.forall_mem_cons.mpr ⟨hlatest.imp_right .inr, hothers⟩, ?_⟩
    intro s' hs' c hc
    rw [lastCall?_call] at hc
    split at hc
    · -- the subscriber is told now
      obtain rfl := Option.some.inj hc
      exact hlatest.imp_right .inl
    · next hne =>
      refine (h.last_call s' hs' c hc).imp_right (Or.imp_right (Or.imp_right ?_))
      rintro ⟨r', hr', hnumber, hmem⟩
      rcases List.mem_cons.mp hr' with rfl | hr'
      · rw [hwaiting] at hmem
        rcases List.mem_cons.mp hmem with rfl | hmem
        · exact absurd rfl hne
        · exact ⟨_, List.mem_cons_self, hnumber, hmem⟩
      · exact ⟨r', List.mem_cons_of_mem _ hr', hnumber, hmem⟩

/-- After an installation every subscriber waits to be told of it. -/
theorem replaced (σ : Session γ) (settings : Settings) :
    Informed ((σ.replaced settings).push (σ.newRound settings)) := by
  have hlatest : ((σ.replaced settings).push (σ.newRound settings)).IsLatest
      (σ.newRound settings).number := by
    show σ.installations.length + 1 = (σ.installations ++ [_]).length
    rw [List.length_append, List.length_singleton]
  refine ⟨List.forall_mem_cons.mpr ⟨.inl hlatest, ?_⟩, ?_⟩
  · -- the rounds that were under way are overtaken
    intro r hr
    cases hwaiting : r.waiting with
    | nil => exact .inr (.inl rfl)
    | cons s waiting =>
      refine .inr (.inr (List.mem_append_right _ (List.mem_map.mpr ⟨r, ?_, rfl⟩)))
      exact List.mem_filter.mpr ⟨hr, by rw [hwaiting]; rfl⟩
  · exact fun s hs _ _ => .inr (.inr (.inr ⟨_, List.mem_cons_self, hlatest, hs⟩))

theorem subscribe (h : Informed σ) (hn : Numbered σ) (callback : γ) :
    Informed (σ.subscribe callback) := by
  refine ⟨h.overtaken_of_waiting, ?_⟩
  intro s hs c hc
  rcases List.mem_append.mp hs with hs | hs
  · exact h.last_call s hs c hc
  · -- nobody has called a subscription that is new
    rw [List.mem_singleton.mp hs] at hc
    obtain ⟨hmem, hnumber⟩ := List.mem_filter.mp (List.mem_of_getLast? hc)
    exact absurd (hn.called_lt c hmem) (Nat.not_lt_of_le (Nat.le_of_eq (beq_iff_eq.mp hnumber).symm))

theorem abort (h : Informed σ) : Informed σ.abort := by
  cases hrounds : σ.rounds with
  | nil => rwa [abort_of_nil hrounds]
  | cons r rounds =>
    have hrest : ∀ r' ∈ rounds, r' ∈ σ.rounds := fun r' hr' => by
      rw [hrounds]
      exact List.mem_cons_of_mem r hr'
    rw [abort_of_cons hrounds]
    refine ⟨fun r' hr' => h.overtaken_of_waiting r' (hrest r' hr'), ?_⟩
    intro s hs c hc
    refine (h.last_call s hs c hc).imp_right (Or.imp_right ?_)
    rintro (⟨n, hn, hnumber⟩ | ⟨r', hr', hnumber, hmem⟩)
    · exact .inl ⟨n, mem_cutShort_iff.mpr (.inl hn), hnumber⟩
    · rw [hrounds] at hr'
      rcases List.mem_cons.mp hr' with rfl | hr'
      · -- the subscriber was waiting in the round that is cut short
        have hwaiting := List.ne_nil_of_mem hmem
        exact .inl ⟨r'.number, mem_cutShort_iff.mpr (.inr ⟨rfl, hwaiting⟩), hnumber⟩
      · exact .inr ⟨r', hr', hnumber, hmem⟩

/-- **The step.** -/
theorem step [BEq γ] (h : Informed σ) (hn : Numbered σ) (m : Move γ) : Informed (σ.step m) := by
  rcases step_cases σ m with ⟨settings, hstep⟩ | ⟨c, hstep⟩ | ⟨-, hstep⟩ | ⟨-, hstep⟩ |
    ⟨store, -, hsub, hstep⟩
  · rw [hstep, install_eq]
    exact (replaced σ settings).proceed
  · rw [hstep]
    exact h.subscribe hn c
  · rw [hstep]
    exact answer_induction (fun _ _ h => h.proceed) h
  · rw [hstep]
    exact h.abort
  · rw [hstep]
    exact ⟨h.overtaken_of_waiting, fun s hs => h.last_call s (hsub.subset hs)⟩

end Informed

/-! ## Failures -/

theorem proceed_cutShort (σ : Session γ) (r : Round (Subscription γ)) :
    (σ.proceed r).cutShort = σ.cutShort := by
  unfold proceed
  split <;> rfl

/-- Only failures cut rounds short. -/
theorem step_cutShort [BEq γ] (σ : Session γ) {m : Move γ} (hm : m ≠ .fails) :
    (σ.step m).cutShort = σ.cutShort := by
  rcases step_cases σ m with ⟨settings, hstep⟩ | ⟨c, hstep⟩ | ⟨-, hstep⟩ | ⟨hfails, -⟩ |
    ⟨store, -, -, hstep⟩
  · rw [hstep, install_eq, proceed_cutShort]
    rfl
  · rw [hstep]
    rfl
  · rw [hstep]
    cases hrounds : σ.rounds with
    | nil => rw [answer_of_nil hrounds]
    | cons r rounds => rw [answer_of_cons hrounds, proceed_cutShort]
  · exact absurd hfails hm
  · rw [hstep]

theorem run_cutShort [BEq γ] (σ : Session γ) {moves : List (Move γ)} (hm : .fails ∉ moves) :
    (σ.run moves).cutShort = σ.cutShort := by
  induction moves generalizing σ with
  | nil => rfl
  | cons m moves ih =>
    obtain ⟨hne, hrest⟩ := not_or.mp (fun h => hm (List.mem_cons.mpr h))
    exact (ih (σ.step m) hrest).trans (step_cutShort σ (Ne.symm hne))

/-! ## Runs -/

/-- **The calls of a run.** Whatever the subscribers do, every installation is told to those of that
moment in the order of their subscription, to none of them twice, and when its round is over, to all
of them exactly if no failure has cut the round short. When no subscriber runs, each subscription
that is there was last given the snapshot that the store has, unless the round of that call was
overtaken or that of the latest installation was cut short. -/
theorem run_calls [BEq γ] (defaults : Settings) (moves : List (Move γ)) :
    let σ := (start defaults).run moves
    (∀ n i, σ.installations[n]? = some i →
      i.subscribers.Pairwise (·.number < ·.number) ∧
      (∀ d ∈ σ.callsFor n, d.settings = i.settings) ∧
      σ.told n <+: i.subscribers ∧
      ((∀ r ∈ σ.rounds, r.number ≠ n) → (σ.told n = i.subscribers ↔ n ∉ σ.cutShort))) ∧
    (.fails ∉ moves → σ.cutShort = []) ∧
    (σ.rounds = [] → ∀ s ∈ σ.store.subscribers, ∀ n d, σ.lastCall? s = some (n, d) →
      n ∉ σ.overtaken → (∀ m ∈ σ.cutShort, ¬ σ.IsLatest m) → d.settings = σ.store.snapshot) := by
  intro σ
  have haccounts : Accounts σ := run_induction (fun _ m h => h.step m) (.start defaults) moves
  obtain ⟨hnumbered, hinformed⟩ : Numbered σ ∧ Informed σ :=
    run_induction (P := fun σ => Numbered σ ∧ Informed σ)
      (fun _ m h => ⟨h.1.step m, h.2.step h.1 m⟩) ⟨.start defaults, .start defaults⟩ moves
  refine ⟨?_, fun hfails => run_cutShort _ hfails, ?_⟩
  · intro n i hi
    refine ⟨hnumbered.installed_ordered i (List.mem_of_getElem? hi), ?_,
      haccounts.told_prefix n i hi, haccounts.told_all n i hi⟩
    intro d hd
    obtain ⟨c, hc, rfl⟩ := List.mem_map.mp hd
    obtain ⟨hmem, hnumber⟩ := List.mem_filter.mp hc
    obtain ⟨j, hj, hsettings⟩ := haccounts.call_at c hmem
    rw [beq_iff_eq.mp hnumber, hi] at hj
    rw [hsettings, Option.some.inj hj]
  · intro hrounds s hs n d hcall hovertaken hcut
    have hlatest : σ.IsLatest n := by
      rcases hinformed.last_call s hs _ hcall with h | h | ⟨m, hm, h⟩ | ⟨r, hr, -⟩
      · exact h
      · exact absurd h hovertaken
      · exact absurd h (hcut m hm)
      · rw [hrounds] at hr
        cases hr
    have hmem := (List.mem_filter.mp (List.mem_of_getLast? hcall)).1
    obtain ⟨i, hi, hsettings⟩ := haccounts.call_at _ hmem
    rw [hsettings]
    refine (haccounts.snapshot_eq i ?_).symm
    rw [List.getLast?_eq_getElem?, ← hlatest, Nat.add_sub_cancel]
    exact hi

/-- Two subscribers, the first of which fails when it is called. -/
def firstFails : List (Move Bool) :=
  [.subscribe true, .subscribe false, .configure { Options.none with silent := some true }, .fails]

/-- Two subscribers, the first of which adds a third one when it is called. -/
def firstSubscribes : List (Move Bool) :=
  [.subscribe true, .subscribe false, .configure { Options.none with silent := some true },
    .subscribe true, .returns, .returns]

/-- After a failure the second subscriber is not told. Where none fails both are, and the second one
has the snapshot. -/
theorem run_calls_two :
    (∃ i, ((start .base).run firstFails).installations[0]? = some i ∧ i.subscribers.length = 2 ∧
      ((start .base).run firstFails).told 0 ≠ i.subscribers) ∧
    ((start .base).run firstSubscribes).cutShort = [] ∧
    ∃ n d, ((start .base).run firstSubscribes).lastCall? ⟨1, false⟩ = some (n, d) ∧
      d.settings = ((start .base).run firstSubscribes).store.snapshot := by
  refine ⟨⟨_, rfl, rfl, ?_⟩, (run_calls .base firstSubscribes).2.1 ?_, 0, _, rfl, ?_⟩
  · intro htold
    refine ((run_calls .base firstFails).1 0 _ rfl).2.2.2 ?_ |>.mp htold (List.mem_singleton.mpr rfl)
    exact fun r hr => nomatch hr
  · simp [firstSubscribes]
  · refine (run_calls .base firstSubscribes).2.2 rfl ⟨1, false⟩ ?_ 0 _ rfl ?_ ?_
    · exact List.mem_cons_of_mem _ List.mem_cons_self
    · exact fun h => nomatch h
    · exact fun m hm => nomatch hm

/-- Two subscribers, the first of which takes back the change that it is told of. -/
def firstConfigures : List (Move Bool) :=
  [.subscribe true, .subscribe false, .configure { Options.none with silent := some true },
    .configure { Options.none with silent := some false }, .returns, .returns, .returns, .returns]

-- A round that was overtaken tells the second subscriber of the older snapshot last.
example :
    ∃ d, ((start .base).run firstConfigures).lastCall? ⟨1, false⟩ = some (0, d) ∧
      d.settings.silent = true ∧
      ((start .base).run firstConfigures).store.snapshot.silent = false ∧
      ((start .base).run firstConfigures).rounds = [] ∧
      ((start .base).run firstConfigures).overtaken = [0] :=
  ⟨_, rfl, rfl, rfl, rfl, rfl⟩

end Session
end SourceStamp
