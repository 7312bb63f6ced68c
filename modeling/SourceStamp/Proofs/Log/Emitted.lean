import SourceStamp.Proofs.Log.Stamped

/-!
# What a call emits

A call of a logger is held back by its level or by the filter, or its entry goes to the console as
the transformer leaves it.

- `Emission.IsHeld`, `Emission.IsSent`, `Emission.IsRefused`: the outcomes.
- `Settings.Passes`, `Settings.Transforms`: what the settings make of an entry.
- `Emission.ofEntry_held`, `Emission.ofEntry_eq`: what becomes of an entry.
- `Logger.emit_cases`, `Logger.log_exact`: what becomes of a call.

The console has no number for the silent level, and a call fails whose entry the transformer makes
silent. So does a call whose entry has a line that is too long to be written.
-/

namespace SourceStamp

namespace Emission

/-- The call came to nothing: no entry for the caller, no record for the console. -/
structure IsHeld (m : Emission) : Prop where
  result : m.result = .ok none
  records : m.records = []

/-- The caller got an entry, and the console one record with that entry, the number of its level and
the rendered entry. -/
structure IsSent (m : Emission) (s : Settings) (e : Entry) : Prop where
  result : m.result = .ok (some e)
  records : ∃ severity message, e.level.consoleSeverity? = some severity ∧
    e.rendered s.isDevelopment = .ok message ∧ m.records = [⟨severity, message, e⟩]

/-- The call failed, and the console got nothing. -/
structure IsRefused (m : Emission) (fault : LogError) : Prop where
  result : m.result = .error fault
  records : m.records = []

/-- The entries that the caller got or the console received. -/
def Shows (m : Emission) (e : Entry) : Prop :=
  m.result = .ok (some e) ∨ ∃ r ∈ m.records, r.entry = e

variable {m : Emission} {s : Settings} {e shown : Entry} {fault fault' : LogError}

theorem not_shows (hresult : m.result ≠ .ok (some shown)) (hrecords : m.records = []) :
    ¬ m.Shows shown := by
  rintro (h | ⟨r, hr, -⟩)
  · exact hresult h
  · rw [hrecords] at hr
    cases hr

theorem IsHeld.not_shows (h : m.IsHeld) : ¬ m.Shows shown :=
  Emission.not_shows (by simp [h.result]) h.records

theorem IsRefused.not_shows (h : m.IsRefused fault) : ¬ m.Shows shown :=
  Emission.not_shows (by simp [h.result]) h.records

theorem IsRefused.not_isHeld (h : m.IsRefused fault) : ¬ m.IsHeld := by
  intro hheld
  simpa [h.result] using hheld.result

theorem IsRefused.eq (h : m.IsRefused fault) (h' : m.IsRefused fault') : fault = fault' :=
  Except.error.inj (h.result.symm.trans h'.result)

theorem IsSent.shows (h : m.IsSent s e) : m.Shows e := .inl h.result

theorem IsSent.eq_of_shows (h : m.IsSent s e) (hshown : m.Shows shown) : shown = e := by
  obtain ⟨severity, message, -, -, hrecords⟩ := h.records
  obtain hresult | ⟨r, hr, rfl⟩ := hshown
  · rw [h.result] at hresult
    exact (Option.some.inj (Except.ok.inj hresult)).symm
  · rw [hrecords, List.mem_singleton] at hr
    rw [hr]

end Emission

namespace Settings

/-- Whether the filter lets an entry pass. -/
def keeps (s : Settings) (e : Entry) : Bool := s.entryFilter.all fun keep => keep e

/-- Both the level of the call and the filter let the entry pass. -/
def Passes (s : Settings) (level : Level) (e : Entry) : Prop := s.shouldLog level ∧ s.keeps e

/-- What the transformer leaves of an entry; without a transformer, the entry as it is. -/
def Transforms (s : Settings) (e sent : Entry) : Prop :=
  match s.entryTransformer with
  | none => sent = e
  | some transform => transform e = .ok sent

end Settings

namespace Emission

variable {s : Settings} {captures : Captures} {e sent : Entry}

theorem isHeld_held (captures : Captures) : (held captures).IsHeld := ⟨rfl, rfl⟩

theorem ofEntry_held (h : ¬ s.keeps e) : (ofEntry s captures e).IsHeld := by
  have hfilter : (s.entryFilter.all fun keep => keep e) = false := Bool.eq_false_iff.mpr h
  rw [ofEntry, hfilter]
  exact isHeld_held captures

/-- An entry that the filter keeps is sent as the transformer leaves it. -/
theorem ofEntry_eq (h : s.keeps e) (hsent : s.Transforms e sent) :
    ofEntry s captures e = send s captures sent := by
  have hfilter : (s.entryFilter.all fun keep => keep e) = true := h
  rw [ofEntry, hfilter]
  unfold Settings.Transforms at hsent
  cases htransformer : s.entryTransformer with
  | none =>
    rw [htransformer] at hsent
    rw [hsent]
    rfl
  | some transform =>
    rw [htransformer] at hsent
    dsimp only at hsent ⊢
    rw [hsent]
    rfl

end Emission

namespace Logger

variable {l : Logger} {s : Settings} {known : Level} {message : Text} {data metadata : Value}
  {entry sent : Entry} {captures : Captures}

/-- A call whose entry does not pass is held back. -/
theorem isHeld_emit (htold : l.told s known message data metadata = .ok entry)
    (h : ¬ s.Passes known entry) : (l.emit s known message data metadata).IsHeld := by
  by_cases hlevel : s.shouldLog known
  · obtain ⟨captures, hemit⟩ := l.exists_emit_eq hlevel message data metadata
    rw [hemit, htold]
    exact Emission.ofEntry_held fun hkeeps => h ⟨hlevel, hkeeps⟩
  · rw [emit, if_neg hlevel]
    exact Emission.isHeld_held _

/-- A call whose entry passes sends what the transformer leaves of it. -/
theorem emit_eq_send (htold : l.told s known message data metadata = .ok entry)
    (h : s.Passes known entry) (hsent : s.Transforms entry sent) :
    ∃ captures, l.emit s known message data metadata = .send s captures sent := by
  obtain ⟨hlevel, hkeeps⟩ := h
  obtain ⟨captures, hemit⟩ := l.exists_emit_eq hlevel message data metadata
  refine ⟨captures, ?_⟩
  rw [hemit, htold]
  exact Emission.ofEntry_eq hkeeps hsent

/-- **Inversion**: what becomes of a call whose entry can be made. -/
theorem emit_cases (htold : l.told s known message data metadata = .ok entry)
    (hsent : s.Transforms entry sent) :
    let m := l.emit s known message data metadata
    (¬ s.Passes known entry ∧ m.IsHeld) ∨
      (s.Passes known entry ∧ sent.level ≠ .silent ∧ sent.location.IsShowable ∧
        m.IsSent s sent) ∨
      (s.Passes known entry ∧ sent.level = .silent ∧ m.IsRefused .silentLevel) ∨
      (s.Passes known entry ∧ sent.level ≠ .silent ∧ ¬ sent.location.IsShowable ∧
        m.IsRefused (.numeral ⟨⟩)) := by
  intro m
  by_cases hpasses : s.Passes known entry
  · obtain ⟨captures, hemit⟩ := emit_eq_send htold hpasses hsent
    have hm : m = .send s captures sent := hemit
    obtain ⟨hlevel, hsend⟩ | ⟨hlevel, hshow, hsend⟩ |
        ⟨hlevel, hshow, severity, message, hseverity, hmessage, hsend⟩ :=
      Emission.send_cases s captures sent
    · exact .inr (.inr (.inl ⟨hpasses, hlevel, by rw [hm, hsend]; exact ⟨rfl, rfl⟩⟩))
    · exact .inr (.inr (.inr ⟨hpasses, hlevel, hshow, by rw [hm, hsend]; exact ⟨rfl, rfl⟩⟩))
    · refine .inr (.inl ⟨hpasses, hlevel, hshow, ?_⟩)
      rw [hm, hsend]
      exact ⟨rfl, severity, message, hseverity, hmessage, rfl⟩
  · exact .inl ⟨hpasses, isHeld_emit htold hpasses⟩

/-- **What a call emits**: where the entry of a call can be made and the transformer does not fail
at it, the call comes to nothing, or its caller gets an entry and the console gets the record of
that entry alone, unless the entry passes and what the transformer leaves of it is silent or has a
location that cannot be shown: then the call fails, and the console gets nothing. The call comes to
nothing exactly when the level or the filter holds the entry back; what is sent is what the
transformer leaves of the entry; and no silent entry is handed on or sent. -/
theorem log_exact {level : Value} (hlevel : Level.parse level = .ok known)
    (haccepted : ((Entry.create s l.stack 0 known message data (l.callContext metadata)).run
      captures).1 = .ok entry)
    (hsent : s.Transforms entry sent) :
    let m := l.log s level message data metadata
    ((m.IsHeld ∨ ∃ e, m.IsSent s e) ↔
        ¬ (s.Passes known entry ∧ (sent.level = .silent ∨ ¬ sent.location.IsShowable))) ∧
      (m.IsHeld ↔ ¬ s.Passes known entry) ∧
      (∀ e, m.IsSent s e ↔
        s.Passes known entry ∧ sent.level ≠ .silent ∧ sent.location.IsShowable ∧ e = sent) ∧
      (m.IsRefused .silentLevel ↔ s.Passes known entry ∧ sent.level = .silent) ∧
      (m.IsRefused (.numeral ⟨⟩) ↔
        s.Passes known entry ∧ sent.level ≠ .silent ∧ ¬ sent.location.IsShowable) ∧
      ∀ e, m.Shows e → e.level ≠ .silent := by
  have hyields := Entry.create_yields s l.stack 0 known message data (l.callContext metadata)
  have htold : l.told s known message data metadata = .ok entry :=
    (hyields captures).symm.trans haccepted
  intro m
  have hm : m = l.emit s known message data metadata := by
    show l.log s level message data metadata = _
    rw [log, hlevel]
  have hcases := emit_cases htold hsent
  rw [← hm] at hcases
  clear_value m
  obtain ⟨hpasses, hheld⟩ | ⟨hpasses, hlevel, hshow, hemitted⟩ | ⟨hpasses, hlevel, hrefused⟩ |
      ⟨hpasses, hlevel, hshow, hrefused⟩ := hcases
  · have hunsent : ∀ e, ¬ m.IsSent s e := fun e h => hheld.not_shows h.shows
    have hkept : ∀ fault, ¬ m.IsRefused fault := fun fault h => h.not_isHeld hheld
    simp [hpasses, hheld, hunsent, hkept, hheld.not_shows]
  · have hunheld : ¬ m.IsHeld := fun h => h.not_shows hemitted.shows
    have hkept : ∀ fault, ¬ m.IsRefused fault := fun fault h => h.not_shows hemitted.shows
    have hsame : ∀ e, m.IsSent s e ↔ e = sent :=
      fun e => ⟨fun h => hemitted.eq_of_shows h.shows, fun h => h ▸ hemitted⟩
    simp only [hpasses, hlevel, hshow, hunheld, hkept, hsame, exists_eq, and_false, or_false,
      not_true, not_false_iff, or_true, true_and, ne_eq, implies_true]
    intro e hshown
    rwa [hemitted.eq_of_shows hshown]
  · have hunsent : ∀ e, ¬ m.IsSent s e := fun e h => hrefused.not_shows h.shows
    have hother : ¬ m.IsRefused (.numeral ⟨⟩) := fun h => by
      cases hrefused.eq h
    simp [hpasses, hlevel, hrefused, hother, hunsent, hrefused.not_isHeld, hrefused.not_shows]
  · have hunsent : ∀ e, ¬ m.IsSent s e := fun e h => hrefused.not_shows h.shows
    have hother : ¬ m.IsRefused .silentLevel := fun h => by
      cases hrefused.eq h
    simp [hpasses, hlevel, hshow, hrefused, hother, hunsent, hrefused.not_isHeld,
      hrefused.not_shows]

/-- Settings under which everything passes, and entries become of the given level. -/
def retuned (level : Level) : Settings :=
  { Settings.base with
    level := .trace
    entryTransformer := some fun e => .ok { e with level := level } }

/-- A call whose entry is made an error sends an error; one whose entry is made silent fails. -/
theorem log_exact_retuned :
    (∃ e, ((tagged []).log (retuned .error) (.text "info".toList) "m".toList .null .null).IsSent
      (retuned .error) e ∧ e.level = .error) ∧
      ((tagged []).log (retuned .silent) (.text "info".toList) "m".toList .null .null).IsRefused
        .silentLevel := by
  let entry := Context.empty.entry .info "m".toList .null .empty none
  obtain ⟨-, -, hsent, -⟩ := @log_exact (tagged []) (retuned .error) .info "m".toList .null .null
    entry { entry with level := .error } Captures.none (.text "info".toList) rfl rfl rfl
  obtain ⟨-, -, -, hrefused, -⟩ := @log_exact (tagged []) (retuned .silent) .info "m".toList .null
    .null entry { entry with level := .silent } Captures.none (.text "info".toList) rfl rfl rfl
  exact ⟨⟨_, (hsent _).mpr ⟨⟨rfl, rfl⟩, by decide, by decide, rfl⟩, rfl⟩,
    hrefused.mpr ⟨⟨rfl, rfl⟩, rfl⟩⟩

end Logger
end SourceStamp
