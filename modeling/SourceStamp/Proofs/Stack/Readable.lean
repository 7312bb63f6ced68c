import SourceStamp.Proofs.Stack.Captured
import SourceStamp.Proofs.Stack.Shown

/-!
# Readable traces

Reading a trace fails in one way only: a number in one of its lines has more digits than a numeral
may have. Any other text is read, with fewer frames or none.

- `Frame.Reads`: when a reading succeeds, and with which result.
- `Frame.form?`: which form a line has, and `Frame.numerals`: the numbers in it.
- `Frame.shown?`: the frame that a line shows, its numbers however long.
- `Frame.reads_parse`, `Frame.reads_parseLines`: when a line is read, and when a trace is.
- `FramePolicy.caller_and_trace`: what becomes of the caller and of its trace.
-/

namespace SourceStamp
namespace Frame

/-! ## Readings -/

/-- A reading succeeds exactly under a condition, and then with one result. -/
structure Reads {α : Type} (x : Except UnreadableNumeral α) (P : Prop) (v : α) : Prop where
  ok : P → x = .ok v
  error : ¬ P → x = .error ⟨⟩

namespace Reads

variable {α β : Type} {x : Except UnreadableNumeral α} {P Q : Prop} {v : α}

theorem pure (h : P) : Reads (.ok v) P v := ⟨fun _ => rfl, fun hnot => absurd h hnot⟩

theorem congr (h : Reads x P v) (hiff : P ↔ Q) : Reads x Q v :=
  ⟨fun hQ => h.ok (hiff.mpr hQ), fun hQ => h.error (mt hiff.mp hQ)⟩

theorem map (h : Reads x P v) (g : α → β) : Reads (x.map g) P (g v) :=
  ⟨fun hP => by rw [h.ok hP]; rfl, fun hP => by rw [h.error hP]; rfl⟩

theorem bind_pure (h : Reads x P v) (g : α → β) : Reads (x >>= fun a => Pure.pure (g a)) P (g v) :=
  ⟨fun hP => by rw [h.ok hP]; rfl, fun hP => by rw [h.error hP]; rfl⟩

/-- Of two readings one after the other both have to succeed. -/
theorem bind (h : Reads x P v) {f : α → Except UnreadableNumeral β} {w : β}
    (hf : Reads (f v) Q w) : Reads (x >>= f) (P ∧ Q) w := by
  refine ⟨?_, ?_⟩
  · rintro ⟨hP, hQ⟩
    rw [h.ok hP]
    exact hf.ok hQ
  · intro hnot
    -- the second reading is made only if the first one succeeds
    by_cases hP : P
    · rw [h.ok hP]
      exact hf.error fun hQ => hnot ⟨hP, hQ⟩
    · rw [h.error hP]
      rfl

/-- Of many readings all have to succeed. -/
theorem mapM {f : α → Except UnreadableNumeral β} {P : α → Prop} {v : α → β} (ts : List α)
    (h : ∀ t, Reads (f t) (P t) (v t)) : Reads (ts.mapM f) (∀ t ∈ ts, P t) (ts.map v) := by
  induction ts with
  | nil => exact .pure fun t ht => absurd ht List.not_mem_nil
  | cons t ts ih =>
    rw [List.mapM_cons]
    exact ((h t).bind (ih.bind_pure (v t :: ·))).congr List.forall_mem_cons.symm

end Reads

/-! ## Forms -/

/-- The form that a line has: a function, if one is named, and a place. -/
def form? (line : Text) : Option (Option Text × Option Location) :=
  let line := Text.dropEndWhile (fun c => c == '\r' || c == '\n') line
  let bare := Text.strip line
  (keywordForm? line).or
    (((atSignForm? bare).map fun (name, l) => (if name.isEmpty then none else some name, some l)).or
      ((bareForm? bare).map fun l => (none, some l)))

/-- The frame of a form. -/
def ofForm : Option Text × Option Location → Except UnreadableNumeral Frame
  | (name, some l) => ofLocation name l
  | (name, none) => .ok ⟨name, none, none, none⟩

theorem parse_eq (line : Text) :
    parse line = (form? line).elim (.ok none) fun form => (ofForm form).map some := by
  rw [parse, form?]
  dsimp only
  -- the forms are tried in the same order
  cases keywordForm? (Text.dropEndWhile (fun c => c == '\r' || c == '\n') line) with
  | some form =>
    obtain ⟨name, l | l⟩ := form
    · rfl
    · rfl
  | none =>
    rw [Option.none_or]
    cases atSignForm? (Text.strip _) with
    | some form => rfl
    | none =>
      rw [Option.map_none, Option.none_or]
      cases bareForm? (Text.strip _) <;> rfl

/-! ## The places of forms -/

theorem isRead_of_namedPlace? {t name : Text} {l : Location}
    (h : namedPlace? t = some (name, some l)) : l.IsRead := by
  induction t generalizing name with
  | nil => cases h
  | cons c r ih =>
    rw [namedPlace?] at h
    split at h
    · cases h
    · split at h
      · next place hplace =>
        cases h
        obtain ⟨s, -, hs⟩ := Option.bind_eq_some_iff.mp hplace
        exact isRead_of_place? hs
      · obtain ⟨⟨name', l'⟩, hrest, heq⟩ := Option.map_eq_some_iff.mp h
        cases heq
        exact ih hrest

theorem isRead_of_functionAndPlace? {t : Text} {name : Option Text} {l : Location}
    (h : functionAndPlace? t = some (name, some l)) : l.IsRead := by
  rw [functionAndPlace?] at h
  split at h
  · next hnamed =>
    cases h
    exact isRead_of_namedPlace? hnamed
  · obtain ⟨l', hplace, heq⟩ := Option.map_eq_some_iff.mp h
    cases heq
    exact isRead_of_place? hplace

theorem isRead_of_afterBlanks? {t : Text} {name : Option Text} {l : Location}
    (h : afterBlanks? t = some (name, some l)) : l.IsRead := by
  induction t with
  | nil => cases h
  | cons c r ih =>
    rw [afterBlanks?] at h
    split at h
    · rcases Option.or_eq_some_iff.mp h with hlater | ⟨-, hhere⟩
      · exact ih hlater
      · exact isRead_of_functionAndPlace? hhere
    · cases h

theorem isRead_of_keywordForm? {line : Text} {name : Option Text} {l : Location}
    (h : keywordForm? line = some (name, some l)) : l.IsRead := by
  rw [keywordForm?] at h
  split at h
  · exact isRead_of_afterBlanks? h
  · cases h

theorem isRead_of_bareForm? {line : Text} {l : Location} (h : bareForm? line = some l) :
    l.IsRead :=
  isRead_of_location? findDigits_strictNumbers? h

theorem isRead_of_atSignForm? {line name : Text} {l : Location}
    (h : atSignForm? line = some (name, l)) : l.IsRead := by
  induction line generalizing name with
  | nil => cases h
  | cons c r ih =>
    rcases Option.or_eq_some_iff.mp h with hlater | ⟨-, hhere⟩
    · split at hlater
      · cases hlater
      · obtain ⟨⟨name', l'⟩, hrest, heq⟩ := Option.map_eq_some_iff.mp hlater
        cases heq
        exact ih hrest
    · split at hhere
      · obtain ⟨l', hbare, heq⟩ := Option.map_eq_some_iff.mp hhere
        cases heq
        exact isRead_of_bareForm? hbare
      · cases hhere

/-- Whatever form a line has, its numbers are texts of digits. -/
theorem isRead_of_form? {line : Text} {name : Option Text} {l : Location}
    (h : form? line = some (name, some l)) : l.IsRead := by
  rcases Option.or_eq_some_iff.mp h with hkeyword | ⟨-, h⟩
  · exact isRead_of_keywordForm? hkeyword
  · rcases Option.or_eq_some_iff.mp h with hat | ⟨-, hbare⟩
    · obtain ⟨⟨name', l'⟩, hat, heq⟩ := Option.map_eq_some_iff.mp hat
      cases heq
      exact isRead_of_atSignForm? hat
    · obtain ⟨l', hbare, heq⟩ := Option.map_eq_some_iff.mp hbare
      cases heq
      exact isRead_of_bareForm? hbare

/-! ## What a line shows -/

/-- The digits of the numbers in a line that has a form. -/
def numerals (line : Text) : List Text := ((form? line).bind (·.2)).elim [] Location.numerals

/-- The frame of a form, its numbers however long. -/
def ofValues (name : Option Text) (l : Option Location) : Frame where
  functionName := name
  filePath := l.map (·.path)
  line := l.map fun l => value l.line
  column := l.bind fun l => l.column.map value

/-- The frame that a line shows. -/
def shown? (line : Text) : Option Frame := (form? line).map fun (name, l) => ofValues name l

/-- Digits are read when they are not too many. -/
theorem reads_numeral {digits : Text} (h : IsDigits digits) :
    Reads (numeral digits) (IsShort digits) (value digits) := by
  rw [numeral, number?_eq h]
  refine ⟨?_, ?_⟩
  · intro hshort
    rw [if_pos hshort]
  · intro hlong
    rw [if_neg hlong]

theorem reads_column {column : Option Text} (h : ∀ d ∈ column.toList, IsDigits d) :
    Reads (column.mapM numeral) (∀ d ∈ column.toList, IsShort d) (column.map value) := by
  cases column with
  | none => exact .pure fun d hd => absurd hd List.not_mem_nil
  | some digits =>
    exact ((reads_numeral (h digits List.mem_cons_self)).bind_pure some).congr
      List.forall_mem_singleton.symm

theorem reads_ofLocation {l : Location} (h : l.IsRead) (name : Option Text) :
    Reads (ofLocation name l) (∀ d ∈ l.numerals, IsShort d) (ofValues name (some l)) := by
  obtain ⟨hline, hcolumn⟩ := List.forall_mem_cons.mp h
  exact ((reads_numeral hline).bind ((reads_column hcolumn).bind_pure _)).congr
    List.forall_mem_cons.symm

theorem reads_ofForm {name : Option Text} {l : Option Location} (h : ∀ l' ∈ l, l'.IsRead) :
    Reads (ofForm (name, l)) (∀ d ∈ l.elim [] Location.numerals, IsShort d) (ofValues name l) := by
  cases l with
  | none => exact .pure fun d hd => absurd hd List.not_mem_nil
  | some l => exact reads_ofLocation (h l rfl) name

/-- A line is read exactly when its numbers are short. -/
theorem reads_parse (line : Text) :
    Reads (parse line) (∀ d ∈ numerals line, IsShort d) (shown? line) := by
  rw [parse_eq, numerals, shown?]
  cases hform : form? line with
  | none => exact .pure fun d hd => absurd hd List.not_mem_nil
  | some form =>
    obtain ⟨name, l⟩ := form
    have hread : ∀ l' ∈ l, l'.IsRead := by
      rintro l' rfl
      exact isRead_of_form? hform
    exact (reads_ofForm hread).map some

/-! ## What a trace shows -/

/-- No line or column number in a trace has more digits than a numeral may have. -/
def HasShortNumerals (trace : Text) : Prop :=
  ∀ line ∈ Text.lines trace, ∀ d ∈ numerals line, IsShort d

/-- The lines of a trace that show frames, with their frames. -/
def shownLines (trace : Text) : List (Text × Frame) :=
  (Text.lines trace).filterMap fun line => (shown? line).map fun f => (line, f)

/-- A trace is read exactly when its numbers are short. -/
theorem reads_parseLines (trace : Text) :
    Reads (parseLines trace) (HasShortNumerals trace) (shownLines trace) := by
  have hlines := Reads.mapM (Text.lines trace) fun line =>
    (reads_parse line).bind_pure fun found => found.map fun f => (line, f)
  have hfound := hlines.bind_pure fun found => found.filterMap id
  rw [List.filterMap_map] at hfound
  exact hfound

/-! ## A line with a number of any length -/

/-- A line that names a line number. -/
def lineWith (digits : Text) : Text :=
  "    at ".toList ++ ("first".toList ++ ' ' :: '(' :: (['a'] ++ numbers digits ['1'] [')']))

theorem lineWith_closed (digits : Text) :
    lineWith digits = "    at ".toList ++
      ("first".toList ++ ' ' :: '(' :: (['a'] ++ (':' :: digits ++ [':', '1']))) ++ [')'] := by
  unfold lineWith numbers
  generalize "    at ".toList = start, "first".toList = name
  simp only [List.append_assoc, List.cons_append, List.nil_append]

theorem form?_lineWith {digits : Text} (h : IsDigits digits) :
    form? (lineWith digits) = some (some "first".toList, some ⟨['a'], digits, some ['1']⟩) := by
  have hone : IsDigits ['1'] :=
    ⟨List.cons_ne_nil _ _, List.forall_mem_singleton.mpr (by decide)⟩
  have hplace : place? (['a'] ++ numbers digits ['1'] [')']) =
      some (some ⟨['a'], digits, some ['1']⟩) := by
    rw [place?, location?_numbers h hone rfl (by decide) (by decide)]
  have hform : keywordForm? (lineWith digits) =
      some (some "first".toList, some ⟨['a'], digits, some ['1']⟩) :=
    keywordForm?_place hplace (by decide) (by decide) (by decide) (by decide)
  rw [form?, lineWith_closed, dropEndWhile_append_paren, ← lineWith_closed]
  show (keywordForm? (lineWith digits)).or _ = _
  rw [hform, Option.some_or]

theorem hasShortNumerals_lineWith {digits : Text} (h : IsDigits digits)
    (hline : Text.InLine digits) : HasShortNumerals (lineWith digits) ↔ IsShort digits := by
  have hinLine : Text.InLine (lineWith digits) := by
    have hstart : Text.InLine "    at ".toList := by decide
    have hname : Text.InLine "first".toList := by decide
    unfold lineWith numbers
    generalize "    at ".toList = start, "first".toList = name at hstart hname
    simp only [Text.inLine_append, Text.inLine_cons]
    exact ⟨hstart, hname, by decide, by decide, by decide, ⟨⟨by decide, hline⟩, by decide⟩,
      by decide⟩
  have hne : lineWith digits ≠ [] := by
    rw [lineWith_closed]
    exact List.append_ne_nil_of_right_ne_nil _ (List.cons_ne_nil _ _)
  have hone : IsShort ['1'] := by decide
  rw [HasShortNumerals, Text.lines_of_inLine hinLine hne, List.forall_mem_singleton, numerals,
    form?_lineWith h]
  show (∀ d ∈ [digits, ['1']], IsShort d) ↔ _
  rw [List.forall_mem_cons, List.forall_mem_singleton]
  exact and_iff_left hone

end Frame

namespace FramePolicy

variable (f : FramePolicy) (skip : Int) (t : Text)

/-- The lines of a trace that show frames of the user, with the frames. -/
def userLines : List (Text × Frame) :=
  (Frame.shownLines t).filter fun l => !f.isInternal l.2.filePath

/-- The location that one of the user's frames tells. -/
def toldCaller : SourceLocation :=
  if skip < 0 then .empty
  else ((f.userLines t)[skip.toNat]?).elim .empty fun l => f.locationOf l.2

/-- The lines of the user's frames. -/
def toldTrace : Text :=
  Text.join ['\n'] (((f.userLines t).drop skip.toNat).map fun l => Text.strip l.1)

theorem reads_userFrames :
    Frame.Reads (f.userFrames t) (Frame.HasShortNumerals t) (f.userLines t) :=
  (Frame.reads_parseLines t).map _

theorem reads_caller :
    Frame.Reads (f.caller skip t) (Frame.HasShortNumerals t) (f.toldCaller skip t) := by
  refine ⟨?_, ?_⟩
  · intro hshort
    rw [caller, (reads_userFrames f t).ok hshort, toldCaller]
    dsimp only [Except.map]
    cases (f.userLines t)[skip.toNat]? <;> rfl
  · intro hlong
    rw [caller, (reads_userFrames f t).error hlong]
    rfl

theorem reads_trace :
    Frame.Reads (f.trace skip t) (Frame.HasShortNumerals t) (f.toldTrace skip t) :=
  (reads_userFrames f t).map _

/-- **What attribution does with a trace**, whatever its text, the policy and the number of frames
to skip are:

- if its numbers are short, the caller and the trace are those that the user's lines tell: every
  other line is passed over, and the location is empty if too few are left or fewer than none are
  to be skipped;
- if a number has too many digits, in whichever line, there is neither a caller nor a trace.

A source that fails, or yields no text, has the empty location and the empty trace. -/
theorem caller_and_trace (f : FramePolicy) (skip : Int) :
    (∀ t, Frame.HasShortNumerals t →
      f.caller skip t = .ok (f.toldCaller skip t) ∧ f.trace skip t = .ok (f.toldTrace skip t)) ∧
    (∀ t, ¬ Frame.HasShortNumerals t → f.caller skip t = .error ⟨⟩ ∧ f.trace skip t = .error ⟨⟩) ∧
    ∀ source, (source = .given none ∨ ∃ reason, source = .failing reason) →
      StackReader.caller ⟨source, f⟩ skip = .ok .empty ∧
        StackReader.trace ⟨source, f⟩ skip = .ok [] := by
  have hcaller := reads_caller f skip
  have htrace := reads_trace f skip
  refine ⟨fun t h => ⟨(hcaller t).ok h, (htrace t).ok h⟩,
    fun t h => ⟨(hcaller t).error h, (htrace t).error h⟩, ?_⟩
  intro source hsource
  have htext : source.text = [] := by
    rcases hsource with rfl | ⟨reason, rfl⟩ <;> rfl
  have hshort : Frame.HasShortNumerals [] := fun line hline => absurd hline List.not_mem_nil
  have hnone : f.userLines [] = [] := rfl
  rw [StackReader.caller, StackReader.trace]
  dsimp only
  rw [htext, (hcaller []).ok hshort, (htrace []).ok hshort, toldCaller, toldTrace, hnone,
    List.getElem?_nil, List.drop_nil]
  exact ⟨congrArg Except.ok (ite_self _), rfl⟩

/-- One digit more than a numeral may have. -/
def overlong : Text := List.replicate (Text.longestNumeral + 1) '1'

theorem not_hasShortNumerals_overlong : ¬ Frame.HasShortNumerals (Frame.lineWith overlong) := by
  have hne : overlong ≠ [] := by
    rw [overlong, List.replicate_succ]
    exact List.cons_ne_nil _ _
  have hone : ∀ c ∈ overlong, c = '1' := fun c => List.eq_of_mem_replicate
  have hdigits : Frame.IsDigits overlong := ⟨hne, fun c hc => hone c hc ▸ by decide⟩
  have hline : Text.InLine overlong := fun c hc => hone c hc ▸ by decide
  rw [Frame.hasShortNumerals_lineWith hdigits hline, Frame.IsShort, overlong,
    List.length_replicate]
  exact Nat.not_succ_le_self _

/-- The same line is told or not, by the length of its number. -/
theorem caller_and_trace_lineWith :
    ((standard .sample).caller 0 (Frame.lineWith ['7'])).map (·.line) = .ok (some 7) ∧
      ((standard .sample).caller 0 (Frame.lineWith overlong) = .error ⟨⟩ ∧
        (standard .sample).trace 0 (Frame.lineWith overlong) = .error ⟨⟩) ∧
      StackReader.caller ⟨.failing [], standard .sample⟩ 0 = .ok .empty := by
  obtain ⟨hshort, hlong, hempty⟩ := caller_and_trace (standard .sample) 0
  refine ⟨?_, hlong _ not_hasShortNumerals_overlong, (hempty _ (.inr ⟨[], rfl⟩)).1⟩
  have hdigits : Frame.IsDigits ['7'] :=
    ⟨List.cons_ne_nil _ _, List.forall_mem_singleton.mpr (by decide)⟩
  have hline : Text.InLine ['7'] := List.forall_mem_singleton.mpr (by decide)
  have hseven : Frame.HasShortNumerals (Frame.lineWith ['7']) :=
    (Frame.hasShortNumerals_lineWith hdigits hline).mpr (by decide)
  rw [(hshort _ hseven).1]
  decide +kernel

end FramePolicy
end SourceStamp
