import SourceStamp.Log.Logger
import SourceStamp.Proofs.Stack.Lines
import SourceStamp.Proofs.Text.Decimal

/-!
# Rendered entries

An entry is rendered with the line of its location, which may be too long to be written. Such an
entry is not sent, and the call fails.

- `SourceLocation.IsShowable`: the line can be written, or it is not shown.
- `Entry.rendered_cases`: just the entries with such a location are rendered.
- `Emission.send_cases`: what becomes of an entry that is sent.
- `FramePolicy.isWritable_of_caller`: the lines that a trace tells can be written.
-/

namespace SourceStamp

/-! ## Locations that are shown -/

namespace SourceLocation

/-- The line of a location can be written, or there is no path next to which it is shown. -/
def IsShowable (l : SourceLocation) : Prop :=
  (present? l.filePath).isSome → ∀ n ∈ l.line, Text.isWritable n = true

instance (l : SourceLocation) : Decidable l.IsShowable :=
  inferInstanceAs
    (Decidable ((present? l.filePath).isSome → ∀ n ∈ l.line, Text.isWritable n = true))

variable (l : SourceLocation)

theorem isShowable_withComponent_iff (c : Context) :
    (l.withComponent c).IsShowable ↔ l.IsShowable := by
  rw [withComponent]
  cases present? c.componentName <;> exact Iff.rfl

theorem line_withoutInternalFunction (f : FramePolicy) :
    (l.withoutInternalFunction f).line = l.line := by
  rw [withoutInternalFunction]
  split
  · rfl
  · split <;> rfl

/-- **Inversion**: a location is shown if its line can be written, and only then. -/
theorem format_cases (development : Bool) :
    (l.IsShowable ∧ ∃ place, l.format false development = .ok place) ∨
      (¬ l.IsShowable ∧ l.format false development = .error ⟨⟩) := by
  unfold format IsShowable
  cases present? l.filePath with
  | none => exact .inl ⟨by simp, _, rfl⟩
  | some path =>
    unfold formatPath
    cases l.line with
    | none => exact .inl ⟨by simp, _, rfl⟩
    | some n =>
      by_cases hn : Text.isWritable n = true
      · refine .inl ⟨by simp [hn], ?_⟩
        simp only [colonNumber, Text.ofInt?, if_pos hn]
        exact ⟨_, rfl⟩
      · refine .inr ⟨by simp [hn], ?_⟩
        simp only [colonNumber, Text.ofInt?, if_neg hn]
        rfl

end SourceLocation

/-! ## Entries that are sent -/

/-- **Inversion**: an entry is rendered if its location can be shown, and only then. -/
theorem Entry.rendered_cases (e : Entry) (development : Bool) :
    (e.location.IsShowable ∧ ∃ message, e.rendered development = .ok message) ∨
      (¬ e.location.IsShowable ∧ e.rendered development = .error ⟨⟩) := by
  unfold rendered
  obtain ⟨hshow, place, hplace⟩ | ⟨hshow, hplace⟩ := e.location.format_cases development
  · rw [hplace]
    exact .inl ⟨hshow, _, rfl⟩
  · rw [hplace]
    exact .inr ⟨hshow, rfl⟩

theorem Level.exists_consoleSeverity? {level : Level} (h : level ≠ .silent) :
    ∃ severity, level.consoleSeverity? = some severity := by
  cases level with
  | silent => exact absurd rfl h
  | _ => exact ⟨_, rfl⟩

namespace Emission

/-- **Inversion**: an entry that is sent is of a level that no record has, has a location that
cannot be shown, or goes to the console as it is rendered. -/
theorem send_cases (s : Settings) (captures : Captures) (e : Entry) :
    (e.level = .silent ∧ send s captures e = failed .silentLevel captures) ∨
      (e.level ≠ .silent ∧ ¬ e.location.IsShowable ∧
        send s captures e = failed (.numeral ⟨⟩) captures) ∨
      (e.level ≠ .silent ∧ e.location.IsShowable ∧ ∃ severity message,
        e.level.consoleSeverity? = some severity ∧ e.rendered s.isDevelopment = .ok message ∧
        send s captures e = ⟨.ok (some e), [⟨severity, message, e⟩], captures⟩) := by
  unfold send ConsoleRecord.ofEntry?
  by_cases hlevel : e.level = .silent
  · refine .inl ⟨hlevel, ?_⟩
    rw [hlevel]
    rfl
  · obtain ⟨severity, hseverity⟩ := Level.exists_consoleSeverity? hlevel
    rw [hseverity]
    obtain ⟨hshow, message, hmessage⟩ | ⟨hshow, hmessage⟩ := e.rendered_cases s.isDevelopment
    · rw [hmessage]
      exact .inr (.inr ⟨hlevel, hshow, severity, message, rfl, rfl, rfl⟩)
    · rw [hmessage]
      exact .inr (.inl ⟨hlevel, hshow, rfl⟩)

end Emission

/-! ## Lines that a trace tells -/

namespace Frame

theorem isWritable_of_ofLocation {name : Option Text} {l : Location} {f : Frame}
    (h : ofLocation name l = .ok f) : ∀ n ∈ f.line, Text.isWritable n = true := by
  obtain ⟨line, hline, h⟩ := bind_eq_ok_iff.mp h
  obtain ⟨column, -, h⟩ := bind_eq_ok_iff.mp h
  cases h
  rw [numeral] at hline
  split at hline
  · next hread =>
    cases hline
    rintro n ⟨⟩
    exact Text.isWritable_of_number? hread
  · cases hline

theorem isWritable_of_ofLocation_map {name : Option Text} {l : Location} {f : Frame}
    (h : (ofLocation name l).map some = .ok (some f)) : ∀ n ∈ f.line, Text.isWritable n = true := by
  cases hframe : ofLocation name l with
  | error => simp [hframe, Except.map] at h
  | ok g =>
    rw [hframe] at h
    cases h
    exact isWritable_of_ofLocation hframe

/-- The forms of a line read its numbers in one way; an opaque place has none. -/
theorem isWritable_of_parse {line : Text} {f : Frame} (h : parse line = .ok (some f)) :
    ∀ n ∈ f.line, Text.isWritable n = true := by
  rw [parse] at h
  dsimp only at h
  split at h
  · exact isWritable_of_ofLocation_map h
  · cases h
    rintro n ⟨⟩
  · split at h
    · exact isWritable_of_ofLocation_map h
    · split at h
      · exact isWritable_of_ofLocation_map h
      · cases h

end Frame

theorem FramePolicy.isWritable_of_caller {f : FramePolicy} {skip : Int} {trace : Text}
    {location : SourceLocation} (h : f.caller skip trace = .ok location) :
    ∀ n ∈ location.line, Text.isWritable n = true := by
  cases hlines : Frame.parseLines trace with
  | error => simp [caller, userFrames, hlines, Except.map] at h
  | ok lines =>
    rw [caller, userFrames, hlines] at h
    cases h
    dsimp only
    split
    · rintro n ⟨⟩
    · split
      · next line frame hframe =>
        have hmem := (List.mem_filter.mp (List.mem_of_getElem? hframe)).1
        obtain ⟨-, hparse⟩ := Frame.parse_of_mem_parseLines hlines hmem
        rintro n hn
        obtain ⟨k, hk, rfl⟩ := Option.map_eq_some_iff.mp hn
        exact Frame.isWritable_of_parse hparse k hk
      · rintro n ⟨⟩

end SourceStamp
