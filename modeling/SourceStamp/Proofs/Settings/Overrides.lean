import SourceStamp.Settings.Program

/-!
# Overrides are blocks

A store keeps its overrides on a stack that blocks enter and leave. For programs that comes to the
same as if a block gave its override to the code inside it and to no other, and the snapshot does
not know of overrides at all.

- `Program.evaluate`: a program in which a look is answered by the blocks around it. The store
  that it works on has no overrides.
- `Program.exec_under`: an execution is that evaluation, and ends with the overrides that it began
  with.
- `Change.replay`, `Execution.Replays`: the snapshot at each moment is what the changes before it
  make of a store without overrides.
- `Program.exec_scoped`: the two together.
-/

namespace SourceStamp

variable {κ ρ : Type} {react : κ → Reaction κ}

/-! ## Stores under overrides -/

namespace Store

/-- The store with given overrides in place of its own. -/
def under (overrides : List Settings) (s : Store κ) : Store κ := { s with overrides := overrides }

variable {l : List Settings} {s : Store κ}

theorem get_under : (s.under l).get = l.headD s.snapshot := rfl

theorem enter_under (settings : Settings) : (s.under l).enter settings = s.under (settings :: l) :=
  rfl

theorem foldl_subscribe_under (l : List Settings) (s : Store κ) (added : List κ) :
    added.foldl subscribe (s.under l) = (added.foldl subscribe s).under l := by
  induction added generalizing s with
  | nil => rfl
  | cons c added ih => exact ih (s.subscribe c)

/-- The calls do not look at the overrides, apart from what the subscribers see in force. -/
theorem notify_under (react : κ → Reaction κ) (settings : Settings) (l : List Settings)
    (s : Store κ) (subscribers : List κ) :
    (notify react settings (s.under l) subscribers).store =
        (notify react settings s subscribers).store.under l ∧
      (notify react settings (s.under l) subscribers).failed =
        (notify react settings s subscribers).failed := by
  induction subscribers generalizing s with
  | nil => exact ⟨rfl, rfl⟩
  | cons c rest ih =>
    rw [notify, notify, foldl_subscribe_under]
    cases (react c).fails with
    | true => exact ⟨rfl, rfl⟩
    | false => exact ih _

theorem install_under (react : κ → Reaction κ) (settings : Settings) (l : List Settings)
    (s : Store κ) :
    ((s.under l).install react settings).store = (s.install react settings).store.under l ∧
      ((s.under l).install react settings).answer = (s.install react settings).answer := by
  obtain ⟨hstore, hfailed⟩ :=
    notify_under react settings l { s with snapshot := settings } s.subscribers
  refine ⟨hstore, ?_⟩
  have hfailed' : ((s.under l).install react settings).failed = (s.install react settings).failed :=
    hfailed
  have hsnapshot : ((s.under l).install react settings).store.snapshot =
      (s.install react settings).store.snapshot := congrArg (·.snapshot) hstore
  rw [Update.answer, Update.answer, hfailed', hsnapshot]

end Store

namespace Change

/-- A change leaves overrides alone, and does not see them. -/
theorem apply_under (c : Change) (l : List Settings) (s : Store κ) :
    c.apply react (s.under l) = ((c.apply react s).1.under l, (c.apply react s).2) := by
  cases c with
  | configure o =>
    have hupdated : (s.under l).updated o = s.updated o := rfl
    rw [apply, apply, Store.configure, Store.configure, hupdated]
    cases s.updated o with
    | error e => rfl
    | ok settings =>
      obtain ⟨hstore, hanswer⟩ := s.install_under react settings l
      exact Prod.ext hstore hanswer
  | reset defaults =>
    obtain ⟨hstore, hanswer⟩ := (s.setDefaults defaults).install_under react defaults l
    exact Prod.ext hstore hanswer

/-- The store after some changes. A refused one changes nothing. -/
def replay (react : κ → Reaction κ) (s : Store κ) (cs : List Change) : Store κ :=
  cs.foldl (fun s c => (c.apply react s).1) s

theorem replay_append (s : Store κ) (cs cs' : List Change) :
    replay react s (cs ++ cs') = replay react (replay react s cs) cs' := List.foldl_append

end Change

/-! ## Overrides as a matter of the blocks around -/

namespace Execution

/-- The execution with its store under given overrides. -/
def under (l : List Settings) (x : Execution κ ρ) : Execution κ ρ :=
  { x with store := x.store.under l }

variable {l : List Settings} {x : Execution κ ρ}

theorem after_under (m : Moment) : (x.under l).after m = (x.after m).under l := rfl

theorem andThen_under {next next' : ρ → Store κ → Execution κ ρ}
    (h : ∀ r s, next r (s.under l) = (next' r s).under l) :
    (x.under l).andThen next = (x.andThen next').under l := by
  obtain ⟨moments, s, outcome⟩ := x
  cases outcome with
  | error f => rfl
  | ok r => exact congrArg (followedBy _) (h r s)

theorem orElse_under {handler handler' : Failure → Store κ → Execution κ ρ}
    (h : ∀ f s, handler f (s.under l) = (handler' f s).under l) :
    (x.under l).orElse handler = (x.orElse handler').under l := by
  obtain ⟨moments, s, outcome⟩ := x
  cases outcome with
  | ok r => rfl
  | error f => exact congrArg (followedBy _) (h f s)

end Execution

namespace Program

/-- What is in force inside blocks when something is done. -/
def momentIn (enclosing : List Settings) (s : Store κ) (operation : Operation) : Moment :=
  ⟨operation, s.snapshot, enclosing.headD s.snapshot⟩

/-- What a program does to a store where overrides are no part of the store: a look is answered by
the innermost of the blocks around it, and outside of all blocks by the snapshot. -/
def evaluate (react : κ → Reaction κ) : List Settings → Program ρ → Store κ → Execution κ ρ
  | _, done r, s => ⟨[], s, .ok r⟩
  | _, raise f, s => ⟨[], s, .error f⟩
  | enclosing, look next, s =>
    .after (momentIn enclosing s .look)
      (evaluate react enclosing (next (enclosing.headD s.snapshot)) s)
  | enclosing, change c next, s =>
    .after (momentIn enclosing s (.change c)) <|
      match c.apply react s with
      | (s', .ok settings) => evaluate react enclosing (next settings) s'
      | (s', .error f) => ⟨[], s', .error f⟩
  | enclosing, override settings body next, s =>
    let inner := evaluate react (settings :: enclosing) body s
    let block : Execution κ ρ :=
      ⟨momentIn enclosing s (.enter settings) :: inner.moments ++
        [momentIn (settings :: enclosing) inner.store .leave], inner.store, inner.outcome⟩
    block.andThen fun r s => evaluate react enclosing (next r) s
  | enclosing, attempt body handler next, s =>
    ((evaluate react enclosing body s).orElse fun f s =>
      evaluate react enclosing (handler f) s).andThen fun r s =>
        evaluate react enclosing (next r) s

/-- **The stack of overrides is that of the blocks.** By induction on the program; that the body of
a block ends with the override that it began with is what lets the block leave it. -/
theorem exec_under (react : κ → Reaction κ) (p : Program ρ) (l : List Settings) (s : Store κ) :
    p.exec react (s.under l) = (p.evaluate react l s).under l := by
  induction p generalizing l s with
  | done r => rfl
  | raise f => rfl
  | look next ih =>
    rw [exec, evaluate, Store.get_under, ih, Execution.after_under]
    rfl
  | change c next ih =>
    rw [exec, evaluate, c.apply_under]
    obtain ⟨s', answer⟩ := c.apply react s
    cases answer with
    | error f => rfl
    | ok settings => exact congrArg (Execution.after _) (ih settings l s')
  | override settings body next ihbody ihnext =>
    rw [exec, evaluate, Store.enter_under, ihbody (settings :: l) s]
    let inner := body.evaluate react (settings :: l) s
    let block : Execution κ ρ :=
      ⟨momentIn l s (.enter settings) :: inner.moments ++
        [momentIn (settings :: l) inner.store .leave], inner.store, inner.outcome⟩
    exact Execution.andThen_under (x := block) fun r s => ihnext r l s
  | attempt body handler next ihbody ihhandler ihnext =>
    rw [exec, evaluate, ihbody, Execution.orElse_under fun f s => ihhandler f l s]
    exact Execution.andThen_under fun r s => ihnext r l s

end Program

/-! ## The snapshot without overrides -/

/-- The changes among what a program did, in order. -/
def changes (moments : List Moment) : List Change :=
  moments.filterMap fun m => match m.operation with
    | .change c => some c
    | _ => none

theorem changes_append (ms ms' : List Moment) : changes (ms ++ ms') = changes ms ++ changes ms' :=
  List.filterMap_append

/-- What stood in a store at each moment, and stands there at the end, is what the changes made of
it. -/
structure Execution.Replays (react : κ → Reaction κ) (s : Store κ) (x : Execution κ ρ) : Prop where
  moment_snapshot : ∀ i m, x.moments[i]? = some m →
    m.snapshot = (Change.replay react s (changes (x.moments.take i))).snapshot
  store_eq : x.store = Change.replay react s (changes x.moments)

namespace Execution.Replays

variable {s s' : Store κ} {x y : Execution κ ρ}

theorem of_nil {outcome : Except Failure ρ} : Replays react s ⟨[], s, outcome⟩ :=
  ⟨fun _ _ h => (nomatch h), rfl⟩

/-- What is done first sees the store as it is, and what is done then the store after it. -/
theorem after {m : Moment} (hm : m.snapshot = s.snapshot)
    (hs' : s' = Change.replay react s (changes [m])) (hx : Replays react s' x) :
    Replays react s (x.after m) := by
  have hreplay : ∀ ms, Change.replay react s (changes (m :: ms)) =
      Change.replay react s' (changes ms) := by
    intro ms
    rw [hs', ← Change.replay_append, ← changes_append]
    rfl
  refine ⟨fun i m' h => ?_, hx.store_eq.trans (hreplay _).symm⟩
  cases i with
  | zero =>
    cases h
    exact hm
  | succ i => exact (hx.moment_snapshot i m' h).trans (by rw [← hreplay]; rfl)

/-- One execution after another. -/
theorem followedBy (hx : Replays react s x) (hy : Replays react x.store y) :
    Replays react s (x.followedBy y) := by
  have hreplay : ∀ ms, Change.replay react s (changes (x.moments ++ ms)) =
      Change.replay react x.store (changes ms) := by
    intro ms
    rw [changes_append, Change.replay_append, ← hx.store_eq]
  refine ⟨fun i m h => ?_, hy.store_eq.trans (hreplay _).symm⟩
  by_cases hi : i < x.moments.length
  · have hm : x.moments[i]? = some m := (List.getElem?_append_left hi).symm.trans h
    rw [Execution.followedBy, List.take_append_of_le_length (Nat.le_of_lt hi)]
    exact hx.moment_snapshot i m hm
  · have hlength := Nat.le_of_not_lt hi
    have hm : y.moments[i - x.moments.length]? = some m :=
      (List.getElem?_append_right hlength).symm.trans h
    rw [Execution.followedBy, List.take_append, List.take_of_length_le hlength, hreplay]
    exact hy.moment_snapshot _ m hm

theorem andThen (hx : Replays react s x) {next : ρ → Store κ → Execution κ ρ}
    (hnext : ∀ r s, Replays react s (next r s)) : Replays react s (x.andThen next) := by
  unfold Execution.andThen
  split
  · exact hx.followedBy (hnext _ _)
  · exact hx

theorem orElse (hx : Replays react s x) {handler : Failure → Store κ → Execution κ ρ}
    (hhandler : ∀ f s, Replays react s (handler f s)) : Replays react s (x.orElse handler) := by
  unfold Execution.orElse
  split
  · exact hx
  · exact hx.followedBy (hhandler _ _)

end Execution.Replays

namespace Program

/-- The snapshot of a program is that of its changes: by induction on the program, as only changes
touch the store. -/
theorem evaluate_replays (react : κ → Reaction κ) (p : Program ρ) (l : List Settings)
    (s : Store κ) : (p.evaluate react l s).Replays react s := by
  induction p generalizing l s with
  | done r => exact .of_nil
  | raise f => exact .of_nil
  | look next ih => exact .after rfl rfl (ih _ l s)
  | change c next ih =>
    rw [evaluate]
    cases happly : c.apply react s with
    | mk s' answer =>
      have hs' : s' = Change.replay react s (changes [momentIn l s (.change c)]) :=
        (congrArg Prod.fst happly).symm
      cases answer with
      | error f => exact .after rfl hs' .of_nil
      | ok settings => exact .after rfl hs' (ih settings l s')
  | override settings body next ihbody ihnext =>
    refine Execution.Replays.andThen ?_ fun r s => ihnext r l s
    let inner := body.evaluate react (settings :: l) s
    let left : Execution κ ρ :=
      ⟨[momentIn (settings :: l) inner.store .leave], inner.store, inner.outcome⟩
    have hleft : left.Replays react inner.store := .after rfl rfl .of_nil
    have hinner : (inner.followedBy left).Replays react s := (ihbody (settings :: l) s).followedBy hleft
    have hentered : s = Change.replay react s (changes [momentIn l s (.enter settings)]) := rfl
    exact .after rfl hentered hinner
  | attempt body handler next ihbody ihhandler ihnext =>
    exact ((ihbody l s).orElse fun f s => ihhandler f l s).andThen fun r s => ihnext r l s

/-- **Overrides are well bracketed and leave the snapshot alone.** Whatever a program looks at,
changes, raises and handles: each look is answered by the innermost of the blocks around it, or by
the snapshot outside of all blocks, and the program goes on and ends as if overrides were no part
of the store. It ends under the overrides that it began with, by a result or by a failure. At every
moment, and at the end, the snapshot is the one of the same changes made without overrides. -/
theorem exec_scoped (react : κ → Reaction κ) (p : Program ρ) (s : Store κ) :
    let x := p.exec react s
    let y := p.evaluate react s.overrides (s.under [])
    x.moments = y.moments ∧ x.outcome = y.outcome ∧ x.store = y.store.under s.overrides ∧
    x.store.get = s.overrides.headD x.store.snapshot ∧
    x.store.snapshot = (Change.replay react (s.under []) (changes x.moments)).snapshot ∧
    ∀ i m, x.moments[i]? = some m →
      m.snapshot = (Change.replay react (s.under []) (changes (x.moments.take i))).snapshot := by
  intro x y
  have hx : x = y.under s.overrides := p.exec_under react s.overrides (s.under [])
  have hreplays : y.Replays react (s.under []) := p.evaluate_replays react s.overrides _
  have hsnapshot : x.store.snapshot = y.store.snapshot := by rw [hx]; rfl
  have hmoments : x.moments = y.moments := by rw [hx]; rfl
  rw [hsnapshot, hmoments]
  exact ⟨rfl, by rw [hx]; rfl, by rw [hx]; rfl, by rw [hx]; rfl,
    congrArg Store.snapshot hreplays.store_eq, hreplays.moment_snapshot⟩

/-- A block that changes the snapshot under an override and then fails; the failure is handled
outside of it, by a look. -/
def failsInBlock : Program Settings :=
  .attempt
    (.override { Settings.base with silent := true }
      (.change (.configure { Options.none with stackTraces := some true }) fun _ =>
        .look fun _ => .raise (.raised "boom".toList))
      .done)
    (fun _ => .look .done)
    .done

/-- The look inside the block sees the override, and the snapshot has changed behind it. The look
after the failure sees the snapshot. -/
theorem exec_scoped_failsInBlock :
    let x := failsInBlock.exec (fun _ => ⟨[], false⟩) (Store.ofDefaults (κ := Bool) .base)
    ∃ inside settings, x.moments[2]? = some inside ∧ inside.active.silent = true ∧
      inside.snapshot.stackTraces = true ∧ inside.snapshot.silent = false ∧
      x.outcome = .ok settings ∧ settings.stackTraces = true ∧ settings.silent = false ∧
      x.store.overrides = [] := by
  intro x
  obtain ⟨-, -, hstore, -, -, hmoments⟩ :=
    failsInBlock.exec_scoped (fun _ => ⟨[], false⟩) (Store.ofDefaults (κ := Bool) .base)
  have hinside := hmoments 2 _ rfl
  exact ⟨_, _, rfl, rfl, (congrArg (·.stackTraces) hinside).trans rfl,
    (congrArg (·.silent) hinside).trans rfl, rfl, rfl, rfl, congrArg (·.overrides) hstore⟩

end Program
end SourceStamp
