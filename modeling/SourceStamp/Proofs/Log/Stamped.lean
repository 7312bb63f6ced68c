import SourceStamp.Proofs.Log.Merging
import SourceStamp.Proofs.Log.Told

/-!
# Entries of stamped calls

A stamp among the metadata of a call tells where the call stands and shows nowhere else.

- `Logger.callContext_eq`: the context of a call with its metadata.
- `Logger.isShowable_of_told`: where the location of an entry can be shown.
- `Logger.told_stamped_agrees`: what is told of a call with and without a stamp.
- `Logger.log_stamped_agrees`: with and without a stamp a call leads to the same entry apart from
  its location, and apart from tags that repeat in the context: those go where metadata are merged,
  and a stamp is metadata.
-/

namespace SourceStamp

/-! ## Calls with metadata -/

namespace Logger

/-- Metadata with fields are merged into the context of a call, and repeated tags go; without fields
there is nothing to merge, and tags stay as they are. -/
theorem callContext_eq (l : Logger) (metadata : Value) :
    l.callContext metadata =
      { l.context with
        tags := if (metadata.fields?.getD []).isEmpty then l.context.tags
          else Text.distinct l.context.tags
        metadata := l.context.metadata.override (metadata.fields?.getD []) } := by
  cases metadata with
  | object fields =>
    cases fields with
    | nil => rfl
    | cons f fs => exact l.context.merged_ofMetadata (f :: fs)
  | _ => rfl

end Logger

/-! ## With and without a stamp -/

/-- The line that a stamp tells can be written. -/
def StampReading.HasWritableLine (i : StampReading) : Prop :=
  ∀ n ∈ i.line, Text.isWritable n = true

/-- The line of a stamp counts, and the one before it where the stamp tells none. -/
theorem SourceLocation.isWritable_withStamp {l : SourceLocation} {i : StampReading}
    (hl : ∀ n ∈ l.line, Text.isWritable n = true) (hi : i.HasWritableLine) :
    ∀ n ∈ (l.withStamp i).line, Text.isWritable n = true := by
  intro n hn
  rcases Option.or_eq_some_iff.mp hn with hn | ⟨-, hn⟩
  · exact hi n hn
  · exact hl n hn

namespace StackReader

variable {r : StackReader}

/-- The frames of the stack that are the user's have numbers with a value. -/
def IsReadable (r : StackReader) : Prop :=
  ∃ frames, r.policy.userFrames r.source.text = .ok frames

/-- A complete stamp is all that a location needs. -/
theorem placed_of_isComplete {i : StampReading} (h : i.isComplete) (skip : Int) :
    r.placed skip (some i) = .ok (SourceLocation.empty.withStamp i) := by
  rw [placed, if_pos h]

theorem isWritable_of_placed {skip : Int} {reading : Option StampReading}
    {location : SourceLocation} (h : r.placed skip reading = .ok location)
    (hreading : ∀ i ∈ reading, i.HasWritableLine) :
    ∀ n ∈ location.line, Text.isWritable n = true := by
  cases reading with
  | none => exact FramePolicy.isWritable_of_caller h
  | some i =>
    rw [placed] at h
    split at h
    · cases h
      exact SourceLocation.isWritable_withStamp (by rintro n ⟨⟩) (hreading i rfl)
    · obtain ⟨caller, hcaller, h⟩ := Frame.bind_eq_ok_iff.mp h
      cases h
      exact SourceLocation.isWritable_withStamp (FramePolicy.isWritable_of_caller hcaller)
        (hreading i rfl)

/-- Where the line of the stamp can be written, so can that of the location. -/
theorem isWritable_of_located {s : Settings} {skip : Int} {reading : Option StampReading}
    {location : SourceLocation} (h : r.located s skip reading = .ok location)
    (hreading : ∀ i ∈ reading, i.HasWritableLine) :
    ∀ n ∈ location.line, Text.isWritable n = true := by
  rw [located] at h
  split at h
  · obtain ⟨found, hfound, h⟩ := Frame.bind_eq_ok_iff.mp h
    cases h
    rw [found.line_withoutInternalFunction]
    exact isWritable_of_placed hfound hreading
  · cases h
    rintro n ⟨⟩

theorem exists_located {s : Settings} {skip : Int} {reading : Option StampReading}
    (h : ∃ location, r.placed skip reading = .ok location) :
    ∃ location, r.located s skip reading = .ok location := by
  obtain ⟨location, hplaced⟩ := h
  rw [located]
  split
  · exact ⟨location.withoutInternalFunction r.policy, by rw [hplaced]; rfl⟩
  · exact ⟨_, rfl⟩

namespace IsReadable

variable (h : r.IsReadable) (skip : Int)

include h

theorem exists_placed (reading : Option StampReading) :
    ∃ location, r.placed skip reading = .ok location := by
  obtain ⟨frames, hframes⟩ := h
  have hcaller : ∃ location, r.caller skip = .ok location := by
    rw [caller, FramePolicy.caller, hframes]
    exact ⟨_, rfl⟩
  obtain ⟨location, hcaller⟩ := hcaller
  cases reading with
  | none => exact ⟨location, hcaller⟩
  | some i =>
    rw [placed]
    split
    · exact ⟨_, rfl⟩
    · exact ⟨location.withStamp i, by rw [hcaller]; rfl⟩

theorem exists_traced (s : Settings) (level : Level) :
    ∃ stackTrace, r.traced s skip level = .ok stackTrace := by
  obtain ⟨frames, hframes⟩ := h
  rw [traced]
  split
  · rw [trace, FramePolicy.trace, hframes]
    exact ⟨_, rfl⟩
  · exact ⟨_, rfl⟩

end IsReadable
end StackReader

/-- The metadata of an entry do not tell whether its call had a stamp. -/
theorem Context.entryMetadata_congr {c c' : Context} (hid : c.componentId = c'.componentId)
    (h : withoutSource c.metadata = withoutSource c'.metadata) :
    c.entryMetadata = c'.entryMetadata := by
  rw [entryMetadata, entryMetadata, hid, h]

/-- Metadata with a stamp among their fields. -/
def stampedMetadata (before stamp after : Fields) : Value :=
  .object (before ++ (sourceKey, .object stamp) :: after)

namespace Logger

section Stamped

variable {l : Logger} {s : Settings} {known : Level} {message : Text} {data metadata : Value}
  {before stamp after : Fields} {reading : StampReading}

/-- The stamp of a call wins over one in the context of its logger. -/
theorem ofMetadata_stamped (hafter : ∀ f ∈ after, f.1 ≠ sourceKey)
    (hstamp : StampReading.ofFields stamp = .ok (some reading)) :
    StampReading.ofMetadata (l.callContext (stampedMetadata before stamp after)).metadata =
      .ok (some reading) := by
  have hget : (l.callContext (stampedMetadata before stamp after)).metadata.get? sourceKey =
      some (.object stamp) := by
    rw [callContext_eq]
    exact Fields.get?_override_of_append hafter _ _ _
  rw [StampReading.ofMetadata, hget]
  exact hstamp

/-- Every label of the context is on a stamped call once. -/
theorem tags_stamped :
    (l.callContext (stampedMetadata before stamp after)).tags = Text.distinct l.context.tags := by
  rw [callContext_eq]
  exact if_neg (by simp [stampedMetadata, Value.fields?])

/-- Where the line of the stamp that counts can be written, the location of the entry can be
shown. -/
theorem isShowable_of_told {reading : Option StampReading} {e : Entry}
    (he : l.told s known message data metadata = .ok e)
    (hreading : StampReading.ofMetadata (l.callContext metadata).metadata = .ok reading)
    (hline : ∀ i ∈ reading, i.HasWritableLine) : e.location.IsShowable := by
  obtain ⟨reading', location, _, hreading', hlocation, -, rfl⟩ := told_eq_ok_iff.mp he
  obtain rfl : reading' = reading := Except.ok.inj (hreading'.symm.trans hreading)
  rw [Context.entry, SourceLocation.isShowable_withComponent_iff]
  exact fun _ => StackReader.isWritable_of_located hlocation hline

/-- Where the stack and the stamp that counts are readable, a call leads to an entry. -/
theorem exists_told (hstack : l.stack.IsReadable) {reading : Option StampReading}
    (hreading : StampReading.ofMetadata (l.callContext metadata).metadata = .ok reading) :
    ∃ e, l.told s known message data metadata = .ok e := by
  obtain ⟨location, hlocation⟩ :=
    StackReader.exists_located (s := s) (hstack.exists_placed 0 reading)
  obtain ⟨stackTrace, htrace⟩ := hstack.exists_traced 0 s known
  exact ⟨_, told_eq_ok_iff.mpr ⟨reading, location, stackTrace, hreading, hlocation, htrace, rfl⟩⟩

variable (hmeta : metadata.fields?.getD [] = before ++ after)

include hmeta

/-- Without a stamp of its own a call has that of the context, if there is one. -/
theorem ofMetadata_plain (hplain : ∀ f ∈ before ++ after, f.1 ≠ sourceKey) :
    StampReading.ofMetadata (l.callContext metadata).metadata =
      StampReading.ofMetadata l.context.metadata := by
  rw [StampReading.ofMetadata, StampReading.ofMetadata, callContext_eq, hmeta]
  simp only [Fields.get?_override_of_forall_ne hplain]

theorem withoutSource_stamped :
    withoutSource (l.callContext (stampedMetadata before stamp after)).metadata =
      withoutSource (l.callContext metadata).metadata := by
  rw [callContext_eq, callContext_eq, hmeta]
  simp only [withoutSource, stampedMetadata, Value.fields?, Option.getD_some,
    Fields.erase_override, Fields.erase_append, Fields.erase_cons_self]

/-- The labels of a call are those of its stamped form, unless it has no metadata to merge. -/
theorem tags_plain :
    Text.distinct (l.callContext metadata).tags = Text.distinct l.context.tags ∧
      (Text.distinct l.context.tags = (l.callContext metadata).tags ↔
        before ++ after ≠ [] ∨ l.context.tags.Nodup) := by
  rw [callContext_eq, hmeta]
  by_cases hempty : before ++ after = []
  · simp only [hempty, List.isEmpty_nil, if_true]
    simp [Text.distinct_eq_self_iff]
  · simp only [List.isEmpty_iff, if_neg hempty]
    have hdistinct := (Text.distinct_eq_self_iff _).mpr (Text.nodup_distinct l.context.tags)
    simp [hempty, hdistinct]

/-- What is told of a call with and without a stamp. -/
theorem told_stamped_agrees {e e' : Entry} (he : l.told s known message data metadata = .ok e)
    (he' : l.told s known message data (stampedMetadata before stamp after) = .ok e') :
    e'.level = e.level ∧ e'.message = e.message ∧ e'.data = e.data ∧
      e'.stackTrace = e.stackTrace ∧ e'.metadata = e.metadata ∧
      e'.tags = Text.distinct e.tags ∧
      (e'.tags = e.tags ↔ before ++ after ≠ [] ∨ l.context.tags.Nodup) := by
  obtain ⟨_, _, stackTrace, -, -, htrace, rfl⟩ := told_eq_ok_iff.mp he
  obtain ⟨_, _, stackTrace', -, -, htrace', rfl⟩ := told_eq_ok_iff.mp he'
  have hsame : stackTrace' = stackTrace := Except.ok.inj (htrace'.symm.trans htrace)
  have hentry : (l.callContext (stampedMetadata before stamp after)).entryMetadata =
      (l.callContext metadata).entryMetadata :=
    Context.entryMetadata_congr (by rw [callContext_eq, callContext_eq])
      (withoutSource_stamped hmeta)
  obtain ⟨hdistinct, hsame_iff⟩ := tags_plain (l := l) hmeta
  refine ⟨rfl, rfl, rfl, hsame, hentry, ?_⟩
  show (l.callContext (stampedMetadata before stamp after)).tags =
      Text.distinct (l.callContext metadata).tags ∧
    ((l.callContext (stampedMetadata before stamp after)).tags = (l.callContext metadata).tags ↔ _)
  rw [tags_stamped, hdistinct]
  exact ⟨rfl, hsame_iff⟩

/-- **A stamp shows in the location only**: with neither filter nor transformer, the entries of a
call of a level that passes, without and with a stamp among its metadata, agree in all but the
location and the tags. The stamped entry has each tag once; the tags agree too exactly when the call
has metadata of its own or no tag of the context repeats. Where the line of the stamp can be written
and the plain call leads to an entry, so does one with a complete stamp; where moreover stack and
context are readable, and the line of the context's stamp can be written, both lead to one. -/
theorem log_stamped_agrees (hfilter : s.entryFilter = none)
    (htransformer : s.entryTransformer = none) {level : Value}
    (hlevel : Level.parse level = .ok known) (hpasses : s.shouldLog known)
    (hplain : ∀ f ∈ before ++ after, f.1 ≠ sourceKey)
    (hstamp : StampReading.ofFields stamp = .ok (some reading)) :
    (∀ e e', (l.log s level message data metadata).result = .ok (some e) →
      (l.log s level message data (stampedMetadata before stamp after)).result = .ok (some e') →
      e'.level = e.level ∧ e'.message = e.message ∧ e'.data = e.data ∧
        e'.stackTrace = e.stackTrace ∧ e'.metadata = e.metadata ∧
        e'.tags = Text.distinct e.tags ∧
        (e'.tags = e.tags ↔ before ++ after ≠ [] ∨ l.context.tags.Nodup)) ∧
    (reading.isComplete → reading.HasWritableLine →
      (∃ e, (l.log s level message data metadata).result = .ok (some e)) →
      ∃ e', (l.log s level message data (stampedMetadata before stamp after)).result =
        .ok (some e')) ∧
    (reading.HasWritableLine → l.stack.IsReadable →
      (∃ own, StampReading.ofMetadata l.context.metadata = .ok own ∧
        ∀ i ∈ own, i.HasWritableLine) →
      (∃ e, (l.log s level message data metadata).result = .ok (some e)) ∧
      ∃ e', (l.log s level message data (stampedMetadata before stamp after)).result =
        .ok (some e')) := by
  simp only [log_result_eq_some_iff hfilter htransformer hlevel hpasses]
  have hread : StampReading.ofMetadata
      (l.callContext (stampedMetadata before stamp after)).metadata = .ok (some reading) :=
    ofMetadata_stamped (fun f hf => hplain f (List.mem_append_right before hf)) hstamp
  have hshow : reading.HasWritableLine → ∀ e',
      l.told s known message data (stampedMetadata before stamp after) = .ok e' →
        e'.location.IsShowable := by
    intro hline e' he'
    refine isShowable_of_told he' hread ?_
    rintro i ⟨⟩
    exact hline
  refine ⟨fun e e' he he' => told_stamped_agrees hmeta he.1 he'.1, ?_, ?_⟩
  · -- a complete stamp needs no stack, and a trace is taken in both calls or in none
    rintro hcomplete hline ⟨e, he, -⟩
    obtain ⟨_, _, stackTrace, -, -, htrace, -⟩ := told_eq_ok_iff.mp he
    obtain ⟨location, hlocation⟩ := StackReader.exists_located (r := l.stack) (s := s)
      ⟨_, StackReader.placed_of_isComplete hcomplete 0⟩
    obtain ⟨e', he'⟩ : ∃ e', l.told s known message data (stampedMetadata before stamp after) =
        .ok e' :=
      ⟨_, told_eq_ok_iff.mpr ⟨_, location, stackTrace, hread, hlocation, htrace, rfl⟩⟩
    exact ⟨e', he', hshow hline e' he'⟩
  · rintro hline hstack ⟨own, hown, hownLine⟩
    have hread' := (ofMetadata_plain hmeta hplain).trans hown
    obtain ⟨e, he⟩ : ∃ e, l.told s known message data metadata = .ok e := exists_told hstack hread'
    obtain ⟨e', he'⟩ : ∃ e', l.told s known message data (stampedMetadata before stamp after) =
        .ok e' := exists_told hstack hread
    exact ⟨⟨e, he, isShowable_of_told he hread' hownLine⟩, e', he', hshow hline e' he'⟩

end Stamped

/-- A logger with tags and nothing else. -/
def tagged (tags : List Text) : Logger :=
  ⟨Context.ofTags tags, none, ⟨.given none, .standard .sample⟩, 0⟩

/-- The stamp of the first line of a file. -/
def firstLine (file : Text) : Fields :=
  [("fileName".toList, .text file), ("lineNumber".toList, .int 1)]

theorem log_stamped_agrees_untagged :
    ∃ e e', ((tagged []).log .base (.text "warn".toList) "m".toList .null .null).result =
        .ok (some e) ∧
      ((tagged []).log .base (.text "warn".toList) "m".toList .null
        (stampedMetadata [] (firstLine "a".toList) [])).result = .ok (some e') ∧
      e'.metadata = e.metadata ∧ e'.tags = e.tags := by
  obtain ⟨hagrees, -, hexists⟩ := @log_stamped_agrees (tagged []) .base .warn "m".toList .null .null
    [] (firstLine "a".toList) [] ⟨some "a".toList, some 1, none⟩ rfl rfl rfl
    (.text "warn".toList) rfl rfl (by simp) rfl
  have hline : StampReading.HasWritableLine ⟨some "a".toList, some 1, none⟩ := by
    rintro n ⟨⟩
    decide
  obtain ⟨⟨e, he⟩, e', he'⟩ := hexists hline ⟨[], rfl⟩ ⟨none, rfl, by rintro i ⟨⟩⟩
  obtain ⟨-, -, -, -, hmeta, -, htags⟩ := hagrees e e' he he'
  exact ⟨e, e', he, he', hmeta, htags.mpr (.inr List.nodup_nil)⟩

/-- A tag that the context repeats is on the plain entry twice and on the stamped one once. -/
theorem log_stamped_drops_tag :
    ∃ e e', ((tagged ["a".toList, "a".toList]).log .base (.text "warn".toList) "m".toList .null
        .null).result = .ok (some e) ∧
      ((tagged ["a".toList, "a".toList]).log .base (.text "warn".toList) "m".toList .null
        (stampedMetadata [] (firstLine "a".toList) [])).result = .ok (some e') ∧
      e'.tags ≠ e.tags :=
  ⟨_, _, rfl, rfl, by decide⟩

end Logger

end SourceStamp
