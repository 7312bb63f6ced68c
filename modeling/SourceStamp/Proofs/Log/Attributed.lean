import SourceStamp.Proofs.Log.Stamped

/-!
# What an entry depends on

Stamp, stack, settings and context all have a say in where an entry's call stands. Which of them
counts is settled in an order: without source paths none but the context, with a complete stamp the
stamp, else the stack too.

- `StackReader.locateEntry_of_isComplete`, `StackReader.locateEntry_without_paths`: when a location
  is found without the stack.
- `Entry.run_create`: the entry of a call whose location is found so. The only capture is the one
  for a trace.
- `Entry.create_independent`: what entries do not depend on.
-/

namespace SourceStamp

/-! ## Locations without a capture -/

namespace StackReader

variable (r : StackReader) {s : Settings} (skip : Int)

/-- A complete stamp is a location of its own. The name of its function is not known, so none is
taken away. -/
theorem locateEntry_of_isComplete {i : StampReading} (h : i.isComplete) :
    r.locateEntry s skip (some i) =
      pure (if s.includesSourcePaths then SourceLocation.empty.withStamp i else .empty) := by
  have hfunction : (SourceLocation.empty.withStamp i).withoutInternalFunction r.policy =
      SourceLocation.empty.withStamp i := rfl
  rw [locateEntry, locate, if_pos h]
  split
  · rw [pure_bind, hfunction]
  · rfl

/-- Without source paths neither stamp nor stack is asked. -/
theorem locateEntry_without_paths (h : s.includesSourcePaths = false)
    (reading : Option StampReading) : r.locateEntry s skip reading = pure .empty := by
  rw [locateEntry, if_neg (by rw [h]; exact Bool.false_ne_true)]

/-! ## Traces -/

/-- The captures after one more. -/
def captured (captures : Captures) : Captures :=
  ⟨captures.count + 1, captures.notices ++ r.source.notices⟩

theorem run_captureTrace (captures : Captures) :
    (r.captureTrace skip).run captures = (r.trace skip, r.captured captures) := by
  rw [captureTrace, run_bind]
  show (liftM (r.trace skip) : Capturing Text).run (r.captured captures) = _
  cases r.trace skip with
  | error => rfl
  | ok => rfl

/-- Taking the trace of an entry is one capture, if a trace is asked for. -/
theorem run_traceEntry (s : Settings) (level : Level) (captures : Captures) :
    (r.traceEntry s skip level).run captures =
      if level = .error ∧ s.stackTraces then ((r.trace skip).map some, r.captured captures)
      else (.ok none, captures) := by
  rw [traceEntry]
  split
  · rw [run_bind, run_captureTrace]
    cases r.trace skip with
    | error => rfl
    | ok => rfl
  · rfl

end StackReader

/-! ## The entry of a call -/

namespace Context

variable (c : Context)

theorem forall_mem_entryMetadata : ∀ f ∈ c.entryMetadata, f.1 ≠ sourceKey := by
  have hwithout : ∀ f ∈ withoutSource c.metadata, f.1 ≠ sourceKey := fun f hf =>
    Fields.ne_of_mem_erase hf
  rw [entryMetadata]
  split
  · exact hwithout
  · exact Fields.ne_of_mem_set (by decide) hwithout _

/-- The metadata of an entry are those of its context apart from the id of the component. -/
theorem get?_entryMetadata {key : Text} (hkey : key ≠ sourceKey) :
    c.entryMetadata.get? key =
      if key = "component_id".toList then
        ((present? c.componentId).map Value.text).or (c.metadata.get? key)
      else c.metadata.get? key := by
  have hwithout : (withoutSource c.metadata).get? key = c.metadata.get? key :=
    Fields.get?_erase_of_ne hkey c.metadata
  rw [entryMetadata]
  by_cases hid : key = "component_id".toList
  · rw [if_pos hid]
    cases present? c.componentId with
    | none => exact hwithout
    | some id =>
      rw [hid]
      exact Fields.get?_set_self _ _ _
  · rw [if_neg hid]
    cases present? c.componentId with
    | none => exact hwithout
    | some id => exact (Fields.get?_set_of_ne (Ne.symm hid) _ _).trans hwithout

end Context

namespace Entry

variable {s : Settings} {r : StackReader} {skip : Int} {level : Level} {message : Text}
  {data : Value} {c : Context} {reading : Option StampReading}

theorem create_eq (hreading : StampReading.ofMetadata c.metadata = .ok reading) :
    create s r skip level message data c = (do
      let location ← r.locateEntry s skip reading
      let stackTrace ← r.traceEntry s skip level
      return c.entry level message data location stackTrace) := by
  rw [create, hreading]
  rfl

/-- Where the location is found without the stack, the only capture is the one for a trace. -/
theorem run_create (hreading : StampReading.ofMetadata c.metadata = .ok reading)
    {location : SourceLocation} (hlocation : r.locateEntry s skip reading = pure location)
    (captures : Captures) :
    (create s r skip level message data c).run captures =
      if level = .error ∧ s.stackTraces then
        ((r.trace skip).map fun t => c.entry level message data location (some t),
          r.captured captures)
      else (.ok (c.entry level message data location none), captures) := by
  rw [create_eq hreading, hlocation, pure_bind, run_bind, r.run_traceEntry]
  by_cases hasked : level = .error ∧ s.stackTraces
  · simp only [if_pos hasked]
    cases r.trace skip with
    | error => rfl
    | ok => rfl
  · simp only [if_neg hasked]
    rfl

/-! ## What entries do not depend on -/

/-- With a complete stamp and no trace asked for, the stack is not captured. -/
theorem exists_create_of_isComplete {i : StampReading}
    (hreading : StampReading.ofMetadata c.metadata = .ok (some i)) (hcomplete : i.isComplete)
    (htrace : ¬(level = .error ∧ s.stackTraces)) (policy : FramePolicy) :
    ∃ e, ∀ source captures,
      (create s ⟨source, policy⟩ skip level message data c).run captures = (.ok e, captures) := by
  let location := if s.includesSourcePaths then SourceLocation.empty.withStamp i else .empty
  refine ⟨c.entry level message data location none, fun source captures => ?_⟩
  rw [run_create hreading (StackReader.locateEntry_of_isComplete _ skip hcomplete), if_neg htrace]

/-- Without source paths an entry depends on the stack for its trace only. -/
theorem create_without_paths (hpaths : s.includesSourcePaths = false)
    (hreading : StampReading.ofMetadata c.metadata = .ok reading) (captures : Captures) :
    ((∃ e, ((create s r skip level message data c).run captures).1 = .ok e) ↔
        (level = .error ∧ s.stackTraces → ∃ t, r.trace skip = .ok t)) ∧
      ∀ e, ((create s r skip level message data c).run captures).1 = .ok e →
        e.location = SourceLocation.empty.withComponent c := by
  rw [run_create hreading (r.locateEntry_without_paths skip hpaths reading)]
  by_cases hasked : level = .error ∧ s.stackTraces
  · rw [if_pos hasked]
    cases r.trace skip with
    | error => simp [hasked, Except.map]
    | ok t =>
      refine ⟨⟨fun _ _ => ⟨t, rfl⟩, fun _ => ⟨_, rfl⟩⟩, ?_⟩
      rintro e ⟨⟩
      rfl
  · rw [if_neg hasked]
    refine ⟨⟨fun _ h => absurd h hasked, fun _ => ⟨_, rfl⟩⟩, ?_⟩
    rintro e ⟨⟩
    rfl

/-- What a call leads to does not depend on what was captured before. -/
theorem create_eq_ok_iff {captures : Captures} {e : Entry} :
    ((create s r skip level message data c).run captures).1 = .ok e ↔
      told s r skip level message data c = .ok e := by
  rw [create_yields]

/-- Every entry of a call has the metadata of its context. -/
theorem metadata_of_create {captures : Captures} {e : Entry}
    (h : ((create s r skip level message data c).run captures).1 = .ok e) :
    e.metadata = c.entryMetadata := by
  obtain ⟨_, _, _, -, -, -, rfl⟩ := told_eq_ok_iff.mp (create_eq_ok_iff.mp h)
  rfl

/-- Where the stack is readable, a call with a readable stamp leads to an entry. -/
theorem exists_create_of_isReadable
    (hreading : StampReading.ofMetadata c.metadata = .ok reading) (hstack : r.IsReadable)
    (captures : Captures) :
    ∃ e, ((create s r skip level message data c).run captures).1 = .ok e := by
  obtain ⟨location, hlocation⟩ :=
    StackReader.exists_located (s := s) (hstack.exists_placed skip reading)
  obtain ⟨stackTrace, htraced⟩ := hstack.exists_traced skip s level
  exact ⟨_, create_eq_ok_iff.mpr
    (told_eq_ok_iff.mpr ⟨reading, location, stackTrace, hreading, hlocation, htraced, rfl⟩)⟩

/-- **What entries do not depend on**: for a context with a readable stamp, or none,

* a call with a complete stamp and without a trace leads to one entry, whatever the source of traces
  is, a failing one included, and captures nothing;
* without source paths the location is the same for any two sources and any two metadata, and only
  an unreadable trace that was asked for keeps the entry back;
* no field of an entry's metadata is a stamp, and every other field is that of the context, apart
  from the id of the component where the context has one. -/
theorem create_independent (s : Settings) (policy : FramePolicy) (skip : Int) (level : Level)
    (message : Text) (data : Value) (c : Context) {reading : Option StampReading}
    (hreading : StampReading.ofMetadata c.metadata = .ok reading) :
    (∀ i, reading = some i → i.isComplete → ¬(level = .error ∧ s.stackTraces) →
      ∃ e, ∀ source captures,
        (create s ⟨source, policy⟩ skip level message data c).run captures = (.ok e, captures)) ∧
    (s.includesSourcePaths = false →
      ∃ location, ∀ source metadata own captures, StampReading.ofMetadata metadata = .ok own →
        ((∃ e, ((create s ⟨source, policy⟩ skip level message data
            { c with metadata := metadata }).run captures).1 = .ok e) ↔
          (level = .error ∧ s.stackTraces →
            ∃ t, StackReader.trace ⟨source, policy⟩ skip = .ok t)) ∧
        ∀ e, ((create s ⟨source, policy⟩ skip level message data
            { c with metadata := metadata }).run captures).1 = .ok e → e.location = location) ∧
    (∀ source captures,
      (StackReader.IsReadable ⟨source, policy⟩ →
        ∃ e, ((create s ⟨source, policy⟩ skip level message data c).run captures).1 = .ok e) ∧
      ∀ e, ((create s ⟨source, policy⟩ skip level message data c).run captures).1 = .ok e →
        (∀ f ∈ e.metadata, f.1 ≠ sourceKey) ∧
        ∀ key, key ≠ sourceKey → e.metadata.get? key =
          if key = "component_id".toList then
            ((present? c.componentId).map Value.text).or (c.metadata.get? key)
          else c.metadata.get? key) := by
  refine ⟨?_, ?_, ?_⟩
  · rintro i rfl hcomplete htrace
    exact exists_create_of_isComplete hreading hcomplete htrace policy
  · intro hpaths
    exact ⟨SourceLocation.empty.withComponent c, fun source metadata own captures hown =>
      create_without_paths (c := { c with metadata := metadata }) hpaths hown captures⟩
  · intro source captures
    refine ⟨fun hstack => exists_create_of_isReadable hreading hstack captures, fun e he => ?_⟩
    rw [metadata_of_create he]
    exact ⟨c.forall_mem_entryMetadata, fun key hkey => c.get?_entryMetadata hkey⟩

/-- A context with a component and a complete stamp. -/
def stampedComponent : Context where
  componentName := none
  componentId := some "c1".toList
  tags := []
  metadata := [(sourceKey, .object (Logger.firstLine "a".toList)), ("k".toList, .int 2)]

theorem create_independent_stamped :
    ∃ e, (∀ source captures,
        (create (.defaults .development) ⟨source, .standard .sample⟩ 0 .warn "m".toList .null
          stampedComponent).run captures = (.ok e, captures)) ∧
      (∀ f ∈ e.metadata, f.1 ≠ sourceKey) ∧ e.metadata.get? "k".toList = some (.int 2) ∧
      e.metadata.get? "component_id".toList = some (.text "c1".toList) := by
  obtain ⟨hstamp, -, hmeta⟩ := @create_independent (.defaults .development) (.standard .sample) 0
    .warn "m".toList .null stampedComponent (some ⟨some "a".toList, some 1, none⟩) rfl
  obtain ⟨e, he⟩ := hstamp _ rfl rfl (by decide)
  obtain ⟨hfields, hget⟩ := (hmeta (.given none) .none).2 e (by rw [he])
  exact ⟨e, he, hfields, hget _ (by decide), hget _ (by decide)⟩

end Entry
end SourceStamp
