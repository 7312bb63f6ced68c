import SourceStamp.Proofs.Settings.Calls

/-!
# Which options are accepted

- `Options.Acceptable`: what may be chosen, said without the checks.
- `Options.Takes`: settings that take over what is chosen, and keep the rest.
- `Settings.asOptions`: settings as options that choose them, which are always acceptable.
- `Options.applyTo_eq_ok_iff`: the checks let through just what can be taken over, and by
  `Options.acceptable_iff` that does not depend on the settings.
- `Session.run_valid`: in every run of a store all snapshots are acceptable, and options that are
  not are refused and change nothing.
-/

namespace SourceStamp

/-! ## What may be chosen -/

/-- Names that may be monitored: identifiers, and none of them both a hook and a wrapper. -/
structure NameGroups.Proper (g : NameGroups) : Prop where
  identifiers : ∀ k, ∀ name ∈ g.get k, isMonitorable name = true
  disjoint : ∀ name ∈ g.hooks, name ∉ g.wrappers

/-- Names that may be chosen. -/
def NamesOption.Acceptable : NamesOption → Prop
  | checked n => n.groups.Proper
  | groups g => g.Proper
  | unknownGroup _ => False

/-- The value names the level, in letters of either case. -/
def Level.IsNamedBy (l : Level) (v : Value) : Prop :=
  ∃ t, v = .text t ∧ l.name = t.map Char.toLower

/-- Options that may be chosen. -/
structure Options.Acceptable (o : Options) : Prop where
  known : o.unknown = []
  environment : ∀ v ∈ o.environment, ∃ e : Environment, v = .text e.name
  level : ∀ v ∈ o.level, ∃ l : Level, l.IsNamedBy v
  sourcePaths : ∀ v ∈ o.sourcePaths,
    (∃ on, v = .bool on) ∨ v = .int 0 ∨ v = .int 1 ∨
      (∃ places, v = .decimal 0 places ∨ v = .decimal (Value.unit places) places) ∨
      v = .text "auto".toList
  names : ∀ n ∈ o.names, n.Acceptable

/-- A choice for source paths as a value. -/
def SourcePaths.value : SourcePaths → Value
  | auto => .text "auto".toList
  | flag on => .bool on
  | digit on => .int (if on then 1 else 0)
  | decimal on places => .decimal (if on then Value.unit places else 0) places

/-- Settings as options that choose them. -/
def Settings.asOptions (s : Settings) : Options where
  environment := some (.text s.environment.name)
  level := some (.text s.level.name)
  sourcePaths := some s.sourcePaths.value
  stackTraces := some s.stackTraces
  silent := some s.silent
  names := some (.groups s.names.groups)
  performance := some s.performance
  entryFilter := some s.entryFilter
  entryTransformer := some s.entryTransformer
  unknown := []

/-! ## Names -/

namespace NameGroups

variable {g : NameGroups}

theorem mem_get_normalized {k : NameGroup} {name : Text} :
    name ∈ g.normalized.get k ↔ name ∈ g.get k := by
  cases k <;> exact List.mem_mergeSort.trans List.mem_eraseDups

theorem proper_normalized_iff : g.normalized.Proper ↔ g.Proper := by
  constructor
  · rintro ⟨hidentifiers, hdisjoint⟩
    refine ⟨fun k name hn => hidentifiers k name (mem_get_normalized.mpr hn), ?_⟩
    intro name hhook hwrapper
    exact hdisjoint name (mem_get_normalized (k := .hooks) |>.mpr hhook)
      (mem_get_normalized (k := .wrappers) |>.mpr hwrapper)
  · rintro ⟨hidentifiers, hdisjoint⟩
    refine ⟨fun k name hn => hidentifiers k name (mem_get_normalized.mp hn), ?_⟩
    intro name hhook hwrapper
    exact hdisjoint name (mem_get_normalized (k := .hooks) |>.mp hhook)
      (mem_get_normalized (k := .wrappers) |>.mp hwrapper)

/-- The checks find nothing wrong with proper names, and with no others. -/
theorem proper_iff : g.Proper ↔ g.badName? = none ∧ g.overlap = [] := by
  constructor
  · rintro ⟨hidentifiers, hdisjoint⟩
    constructor
    · refine List.findSome?_eq_none_iff.mpr fun k _ => Option.map_eq_none_iff.mpr ?_
      refine List.find?_eq_none.mpr fun name hn => ?_
      rw [hidentifiers k name hn]
      exact Bool.false_ne_true
    · refine List.filter_eq_nil_iff.mpr fun name hn hcontains => ?_
      exact hdisjoint name hn (List.contains_iff_mem.mp hcontains)
  · rintro ⟨hbad, hoverlap⟩
    exact ⟨fun k name hn => isMonitorable_of_badName?_eq_none hbad hn,
      fun name hn => not_mem_wrappers_of_overlap_eq_nil hoverlap hn⟩

end NameGroups

theorem MonitoredNames.proper (n : MonitoredNames) : n.groups.Proper :=
  NameGroups.proper_iff.mpr ⟨n.identifiers, n.disjoint⟩

/-! ## Choices and what they stand for -/

/-- What a choice sets: what it stands for, or what was set before if there is none. -/
def Chosen {α β : Type} (standsFor : α → β → Prop) (old new : β) : Option α → Prop
  | some v => standsFor v new
  | none => new = old

/-- What names a choice of names stands for. -/
def NamesOption.StandsFor : NamesOption → MonitoredNames → Prop
  | checked n, names => names = n
  | groups g, names => g.Proper ∧ names.groups = g.normalized
  | unknownGroup _, _ => False

/-- New settings take over the chosen ones, and keep the others. -/
structure Options.Takes (o : Options) (old new : Settings) : Prop where
  environment : Chosen (fun v e => v = .text e.name) old.environment new.environment o.environment
  level : Chosen (fun v l => l.IsNamedBy v) old.level new.level o.level
  sourcePaths : Chosen (fun v p => v = p.value) old.sourcePaths new.sourcePaths o.sourcePaths
  names : Chosen NamesOption.StandsFor old.names new.names o.names
  stackTraces : new.stackTraces = o.stackTraces.getD old.stackTraces
  silent : new.silent = o.silent.getD old.silent
  performance : new.performance = o.performance.getD old.performance
  entryFilter : new.entryFilter = o.entryFilter.getD old.entryFilter
  entryTransformer : new.entryTransformer = o.entryTransformer.getD old.entryTransformer

theorem Environment.parse_eq_ok_iff {v : Value} {e : Environment} :
    Environment.parse v = .ok e ↔ v = .text e.name := by
  constructor
  · intro h
    unfold Environment.parse at h
    split at h
    · next e' hfound =>
      obtain ⟨t, ht, hfind⟩ := Option.bind_eq_some_iff.mp hfound
      have hname := List.find?_some (p := fun e : Environment => e.name == t) hfind
      cases h
      rw [beq_iff_eq.mp hname]
      cases v <;> cases ht
      rfl
    · cases h
  · rintro rfl
    cases e <;> rfl

theorem Level.parse_eq_ok_iff {v : Value} {l : Level} :
    Level.parse v = .ok l ↔ l.IsNamedBy v := by
  constructor
  · intro h
    unfold Level.parse at h
    split at h
    · next l' hfound =>
      obtain ⟨t, ht, hfind⟩ := Option.bind_eq_some_iff.mp hfound
      have hname := List.find?_some (p := fun l : Level => l.name == t.map Char.toLower) hfind
      cases h
      refine ⟨t, ?_, beq_iff_eq.mp hname⟩
      cases v <;> cases ht
      rfl
    · cases h
  · rintro ⟨t, rfl, hl⟩
    have hfound : Level.ofName? t = some l := by
      rw [ofName?, ← hl]
      cases l <;> rfl
    rw [Level.parse, Value.text?, Option.bind_some, hfound]

theorem SourcePaths.parse_eq_ok_iff {v : Value} {p : SourcePaths} :
    SourcePaths.parse v = .ok p ↔ v = p.value := by
  constructor
  · intro h
    unfold SourcePaths.parse at h
    repeat' split at h
    all_goals cases h
    · rfl
    · next hn => rw [hn]; rfl
    · next hn => rw [hn]; rfl
    · next hzero => rw [hzero]; rfl
    · next hone => rw [hone]; rfl
    · next ht => rw [ht]; rfl
  · rintro rfl
    cases p with
    | auto => rfl
    | flag on => rfl
    | digit on => cases on <;> rfl
    | decimal on places =>
      cases on with
      | true => simp [SourcePaths.value, SourcePaths.parse, Value.unit_ne_zero]
      | false => simp [SourcePaths.value, SourcePaths.parse]

theorem MonitoredNames.ofGroups?_eq_ok_iff {g : NameGroups} {n : MonitoredNames} :
    ofGroups? g = .ok n ↔ g.Proper ∧ n.groups = g.normalized := by
  rw [← NameGroups.proper_normalized_iff, NameGroups.proper_iff]
  unfold ofGroups?
  dsimp only
  split
  · next hbad => simp [hbad]
  · next hbad =>
    split
    · next hoverlap =>
      constructor
      · rintro ⟨⟩
        exact ⟨⟨hbad, hoverlap⟩, rfl⟩
      · rintro ⟨-, hgroups⟩
        cases n
        cases hgroups
        rfl
    · next hoverlap => simp [hoverlap]

theorem NamesOption.resolve_eq_ok_iff {n : NamesOption} {names : MonitoredNames} :
    n.resolve = .ok names ↔ n.StandsFor names := by
  cases n with
  | checked n => exact ⟨fun h => (Except.ok.inj h).symm, fun h => congrArg Except.ok h.symm⟩
  | groups g =>
    rw [StandsFor, ← MonitoredNames.ofGroups?_eq_ok_iff, resolve]
    cases MonitoredNames.ofGroups? g with
    | error e => exact iff_of_false (by rintro ⟨⟩) (by rintro ⟨⟩)
    | ok names' =>
      exact ⟨fun h => congrArg Except.ok (Except.ok.inj h),
        fun h => congrArg Except.ok (Except.ok.inj h)⟩
  | unknownGroup name => exact iff_of_false (by rintro ⟨⟩) id

namespace Options

variable {o : Options} {s s' : Settings}

theorem choose_eq_ok_iff {α β : Type} {read : α → Except SettingsError β}
    {standsFor : α → β → Prop} (hread : ∀ {v b}, read v = .ok b ↔ standsFor v b) {old new : β}
    {v? : Option α} : choose read old v? = .ok new ↔ Chosen standsFor old new v? := by
  cases v? with
  | none => exact ⟨fun h => (Except.ok.inj h).symm, fun h => congrArg Except.ok h.symm⟩
  | some v => exact hread

/-- **The checks**: options are applied to settings just if there are settings that take them over,
and the result is that. -/
theorem applyTo_eq_ok_iff : o.applyTo s = .ok s' ↔ o.Takes s s' := by
  have htakes : o.Takes s s' ↔
      choose Environment.parse s.environment o.environment = .ok s'.environment ∧
      choose Level.parse s.level o.level = .ok s'.level ∧
      choose SourcePaths.parse s.sourcePaths o.sourcePaths = .ok s'.sourcePaths ∧
      choose NamesOption.resolve s.names o.names = .ok s'.names ∧
      s'.stackTraces = o.stackTraces.getD s.stackTraces ∧ s'.silent = o.silent.getD s.silent ∧
      s'.performance = o.performance.getD s.performance ∧
      s'.entryFilter = o.entryFilter.getD s.entryFilter ∧
      s'.entryTransformer = o.entryTransformer.getD s.entryTransformer := by
    rw [choose_eq_ok_iff Environment.parse_eq_ok_iff, choose_eq_ok_iff Level.parse_eq_ok_iff,
      choose_eq_ok_iff SourcePaths.parse_eq_ok_iff, choose_eq_ok_iff NamesOption.resolve_eq_ok_iff]
    exact ⟨fun ⟨h1, h2, h3, h4, h5, h6, h7, h8, h9⟩ => ⟨h1, h2, h3, h4, h5, h6, h7, h8, h9⟩,
      fun ⟨h1, h2, h3, h4, h5, h6, h7, h8, h9⟩ => ⟨h1, h2, h3, h4, h5, h6, h7, h8, h9⟩⟩
  rw [htakes, applyTo]
  -- the checks come in this order, and the first that fails decides
  obtain ⟨environment', level', sourcePaths', stackTraces', silent', names', performance',
    entryFilter', entryTransformer'⟩ := s'
  cases choose Environment.parse s.environment o.environment with
  | error e => simp [bind, Except.bind]
  | ok environment =>
    cases choose Level.parse s.level o.level with
    | error e => simp [bind, Except.bind]
    | ok level =>
      cases choose SourcePaths.parse s.sourcePaths o.sourcePaths with
      | error e => simp [bind, Except.bind]
      | ok sourcePaths =>
        cases choose NamesOption.resolve s.names o.names with
        | error e => simp [bind, Except.bind]
        | ok names =>
          simp only [bind, Except.bind, pure, Except.pure, Except.ok.injEq, Settings.mk.injEq]
          grind

theorem exists_chosen_iff {α β : Type} {standsFor : α → β → Prop} (old : β) {v? : Option α} :
    (∃ new, Chosen standsFor old new v?) ↔ ∀ v ∈ v?, ∃ new, standsFor v new := by
  cases v? <;> simp [Chosen]

end Options

theorem SourcePaths.exists_value_iff {v : Value} :
    (∃ p : SourcePaths, v = p.value) ↔
      (∃ on, v = .bool on) ∨ v = .int 0 ∨ v = .int 1 ∨
        (∃ places, v = .decimal 0 places ∨ v = .decimal (Value.unit places) places) ∨
        v = .text "auto".toList := by
  constructor
  · rintro ⟨p, rfl⟩
    cases p with
    | auto => exact .inr (.inr (.inr (.inr rfl)))
    | flag on => exact .inl ⟨on, rfl⟩
    | digit on =>
      cases on with
      | true => exact .inr (.inr (.inl rfl))
      | false => exact .inr (.inl rfl)
    | decimal on places =>
      refine .inr (.inr (.inr (.inl ⟨places, ?_⟩)))
      cases on with
      | true => exact .inr rfl
      | false => exact .inl rfl
  · rintro (⟨on, rfl⟩ | rfl | rfl | ⟨places, rfl | rfl⟩ | rfl)
    · exact ⟨.flag on, rfl⟩
    · exact ⟨.digit false, rfl⟩
    · exact ⟨.digit true, rfl⟩
    · exact ⟨.decimal false places, rfl⟩
    · exact ⟨.decimal true places, rfl⟩
    · exact ⟨.auto, rfl⟩

theorem NamesOption.exists_standsFor_iff {n : NamesOption} :
    (∃ names, n.StandsFor names) ↔ n.Acceptable := by
  cases n with
  | checked n => exact iff_of_true ⟨n, rfl⟩ n.proper
  | groups g =>
    refine ⟨fun ⟨_, h⟩ => h.1, fun h => ?_⟩
    obtain ⟨hbad, hoverlap⟩ := NameGroups.proper_iff.mp (NameGroups.proper_normalized_iff.mpr h)
    exact ⟨⟨g.normalized, hbad, hoverlap⟩, h, rfl⟩
  | unknownGroup name => exact iff_of_false (fun ⟨_, h⟩ => h) id

/-- **Acceptable options** are those that exist and can be taken over, whatever the settings are. -/
theorem Options.acceptable_iff {o : Options} (s : Settings) :
    o.Acceptable ↔ o.unknown = [] ∧ ∃ s', o.Takes s s' := by
  constructor
  · intro h
    obtain ⟨environment, henvironment⟩ := (exists_chosen_iff s.environment).mpr h.environment
    obtain ⟨level, hlevel⟩ := (exists_chosen_iff s.level).mpr h.level
    obtain ⟨sourcePaths, hsourcePaths⟩ := (exists_chosen_iff s.sourcePaths).mpr fun v hv =>
      SourcePaths.exists_value_iff.mpr (h.sourcePaths v hv)
    obtain ⟨names, hnames⟩ := (exists_chosen_iff s.names).mpr fun n hn =>
      NamesOption.exists_standsFor_iff.mpr (h.names n hn)
    exact ⟨h.known, ⟨environment, level, sourcePaths, _, _, names, _, _, _⟩, henvironment, hlevel,
      hsourcePaths, hnames, rfl, rfl, rfl, rfl, rfl⟩
  · rintro ⟨hknown, s', h⟩
    exact ⟨hknown, (exists_chosen_iff _).mp ⟨_, h.environment⟩,
      (exists_chosen_iff _).mp ⟨_, h.level⟩,
      fun v hv => SourcePaths.exists_value_iff.mp ((exists_chosen_iff _).mp ⟨_, h.sourcePaths⟩ v hv),
      fun n hn => NamesOption.exists_standsFor_iff.mp ((exists_chosen_iff _).mp ⟨_, h.names⟩ n hn)⟩

/-- The values that settings hold are acceptable. -/
theorem Settings.asOptions_acceptable (s : Settings) : s.asOptions.Acceptable where
  known := rfl
  environment := fun v hv => ⟨s.environment, (Option.some.inj hv).symm⟩
  level := fun v hv => by
    refine ⟨s.level, s.level.name, (Option.some.inj hv).symm, ?_⟩
    cases s.level <;> rfl
  sourcePaths := fun v hv =>
    SourcePaths.exists_value_iff.mp ⟨s.sourcePaths, (Option.some.inj hv).symm⟩
  names := fun n hn => by
    rw [← Option.some.inj hn]
    exact s.names.proper

/-! ## Stores and sessions -/

/-- A store takes over acceptable options. -/
theorem Store.exists_updated {κ : Type} (s : Store κ) {o : Options} (h : o.Acceptable) :
    ∃ settings, s.updated o = .ok settings ∧ o.Takes s.snapshot settings := by
  obtain ⟨hknown, settings, htakes⟩ := (Options.acceptable_iff s.snapshot).mp h
  refine ⟨settings, ?_, htakes⟩
  rw [updated, hknown, List.isEmpty_nil, if_pos rfl]
  exact Options.applyTo_eq_ok_iff.mpr htakes

/-- A store refuses all others. -/
theorem Store.exists_updated_error {κ : Type} (s : Store κ) {o : Options} (h : ¬ o.Acceptable) :
    ∃ e, s.updated o = .error e := by
  cases hupdated : s.updated o with
  | error e => exact ⟨e, rfl⟩
  | ok settings =>
    refine absurd ((Options.acceptable_iff s.snapshot).mpr ?_) h
    unfold updated at hupdated
    split at hupdated
    · next hknown =>
      exact ⟨List.isEmpty_iff.mp hknown, settings, Options.applyTo_eq_ok_iff.mp hupdated⟩
    · cases hupdated

namespace Session

variable {γ : Type}

theorem proceed_store (σ : Session γ) (r : Round (Subscription γ)) :
    (σ.proceed r).store = σ.store := by
  unfold proceed
  split <;> rfl

/-- **Valid snapshots, and refusals without a trace.** In every run of a store, whatever its
subscribers do, the snapshot holds acceptable values, and so does every snapshot that was ever
installed or told. Options with a fault are refused, and leave the session as it was: snapshot,
subscriptions, overrides and calls. All others replace the snapshot by one that takes them over. -/
theorem run_valid [BEq γ] (defaults : Settings) (moves : List (Move γ)) :
    let σ := (start defaults).run moves
    (σ.store.snapshot.asOptions.Acceptable ∧
      (∀ i ∈ σ.installations, i.settings.asOptions.Acceptable) ∧
      ∀ c ∈ σ.calls, c.2.settings.asOptions.Acceptable) ∧
    ∀ o : Options,
      (¬ o.Acceptable → (∃ e, σ.configure o = .error e) ∧ σ.step (.configure o) = σ) ∧
      (o.Acceptable → ∃ σ', σ.configure o = .ok σ' ∧ σ.step (.configure o) = σ' ∧
        o.Takes σ.store.snapshot σ'.store.snapshot) := by
  intro σ
  refine ⟨⟨Settings.asOptions_acceptable _, fun i _ => Settings.asOptions_acceptable _,
    fun c _ => Settings.asOptions_acceptable _⟩, ?_⟩
  intro o
  constructor
  · intro h
    obtain ⟨e, he⟩ := σ.store.exists_updated_error h
    have hconfigure : σ.configure o = .error e := by rw [configure, he]; rfl
    exact ⟨⟨e, hconfigure⟩, by rw [step, hconfigure]⟩
  · intro h
    obtain ⟨settings, hsettings, htakes⟩ := σ.store.exists_updated h
    have hconfigure : σ.configure o = .ok (σ.install settings) := by
      rw [configure, hsettings]
      rfl
    refine ⟨_, hconfigure, by rw [step, hconfigure], ?_⟩
    rw [install, proceed_store]
    exact htakes

/-- The level is none of those that exist. -/
def loud : Options := { Options.none with level := some (.text "loud".toList) }

/-- Nothing is to pass. -/
def hushed : Options := { Options.none with silent := some true }

/-- A level that does not exist is refused while a subscriber waits for its call, and a choice that
has no fault is taken over. -/
theorem run_valid_loud :
    let σ := (start .base).run (firstSubscribes.take 3)
    ¬ loud.Acceptable ∧ σ.rounds.length = 1 ∧ σ.step (.configure loud) = σ ∧ hushed.Acceptable ∧
      ∃ σ', σ.configure hushed = .ok σ' ∧ σ'.store.snapshot.silent = true := by
  intro σ
  have hloud : ¬ loud.Acceptable := by
    intro h
    obtain ⟨l, t, ht, hl⟩ := h.level (.text "loud".toList) rfl
    cases ht
    cases l <;> exact absurd hl (by decide)
  have hhushed : hushed.Acceptable :=
    ⟨rfl, fun v hv => absurd hv (Option.not_mem_none v), fun v hv => absurd hv (Option.not_mem_none v),
      fun v hv => absurd hv (Option.not_mem_none v), fun n hn => absurd hn (Option.not_mem_none n)⟩
  have hvalid := (run_valid .base (firstSubscribes.take 3)).2
  obtain ⟨σ', hσ', -, htakes⟩ := (hvalid hushed).2 hhushed
  exact ⟨hloud, rfl, ((hvalid loud).1 hloud).2, hhushed, σ', hσ', htakes.silent⟩

end Session
end SourceStamp
