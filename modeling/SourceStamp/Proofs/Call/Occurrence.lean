import SourceStamp.Call.Occurrence
import SourceStamp.Proofs.Lexis.Classification
import SourceStamp.Proofs.Lexis.CodeText
import SourceStamp.Proofs.Text.Blanks

/-!
# What an occurrence says about its source text

The search for monitored calls carries the text before a place backwards and the rest forwards.
Here its results are described by offsets of the whole source text:

- `occurrenceAt`: what the search finds when it tries one offset, and `occurrenceAt_eq_some`: the
  shape of the text there;
- `occurrences_spec`: the occurrences are found at their offsets, one after the other without
  overlap, and an offset at which something could be found is passed over only when it lies inside
  an occurrence found before;
- `MonitoredCall.mem_findAll`: the calls are the occurrences that start in code and are not declared.
-/

namespace SourceStamp

open Text (isBlank isBoundary)

/-! ## Callees -/

/-- The characters that names of callees are made of. -/
def isCalleeChar (c : Char) : Bool :=
  Text.isIdentifierStart c || Text.isIdentifierPart c || c == '$' || c == '.'

theorem isCalleeChar_of_isMonitorable {name : Text} (h : isMonitorable name = true) :
    name ≠ [] ∧ ∀ c ∈ name, isCalleeChar c = true := by
  cases name with
  | nil => simp [isMonitorable, Text.isIdentifier] at h
  | cons a r =>
    refine ⟨List.cons_ne_nil a r, ?_⟩
    intro c hc
    simp only [isMonitorable, List.map_cons, Text.isIdentifier, Bool.and_eq_true, List.all_map,
      List.all_eq_true, Function.comp_apply] at h
    rcases List.mem_cons.mp hc with rfl | hc
    · have := h.1
      split at this <;> simp_all [isCalleeChar]
    · have := h.2 c hc
      split at this <;> simp_all [isCalleeChar]

/-- No name holds a point, so that the one in a method's callee ends the receiver. -/
theorem point_not_mem_of_isMonitorable {name : Text} (h : isMonitorable name = true) :
    '.' ∉ name := by
  cases name with
  | nil => exact List.not_mem_nil
  | cons a r =>
    simp only [isMonitorable, List.map_cons, Text.isIdentifier, Bool.and_eq_true, List.all_map,
      List.all_eq_true, Function.comp_apply] at h
    intro hpoint
    rcases List.mem_cons.mp hpoint with rfl | hr
    · exact absurd h.1 (by decide)
    · exact absurd (h.2 '.' hr) (by decide)

theorem mem_longestFirst {names : List Text} {name : Text} :
    name ∈ MonitoredNames.longestFirst names ↔ name ∈ names := by
  rw [MonitoredNames.longestFirst, List.mem_mergeSort]

/-- Every callee has a name, made of letters, digits, underscores, dollar signs and points. -/
theorem MonitoredNames.callees_chars (names : MonitoredNames) {name : Text} {kind : CalleeKind}
    (h : (name, kind) ∈ names.callees) : name ≠ [] ∧ ∀ c ∈ name, isCalleeChar c = true := by
  have hgroup : ∀ {k : NameGroup} {n : Text}, n ∈ names.groups.get k →
      n ≠ [] ∧ ∀ c ∈ n, isCalleeChar c = true := fun hn =>
    isCalleeChar_of_isMonitorable
      (NameGroups.isMonitorable_of_badName?_eq_none names.identifiers hn)
  simp only [MonitoredNames.callees, List.mem_append, List.mem_flatMap, List.mem_map,
    mem_longestFirst, Prod.mk.injEq] at h
  rcases h with (⟨receiver, hreceiver, method, hmethod, rfl, -⟩ | ⟨n, hn, rfl, -⟩) | ⟨n, hn, rfl, -⟩
  · refine ⟨by simp, ?_⟩
    intro c hc
    rcases List.mem_append.mp hc with hc | hc
    · exact (hgroup (k := .receivers) hreceiver).2 c hc
    · rcases List.mem_cons.mp hc with rfl | hc
      · rfl
      · exact (hgroup (k := .methods) hmethod).2 c hc
  · exact hgroup (k := .hooks) hn
  · exact hgroup (k := .wrappers) hn

/-- A character that no callee holds. -/
theorem ne_of_isCalleeChar {c d : Char} (h : isCalleeChar c = true) (hd : isCalleeChar d = false) :
    c ≠ d := by
  rintro rfl
  rw [h] at hd
  cases hd

/-- No blank is part of a callee. -/
theorem isCalleeChar_of_isBlank {c : Char} (h : isBlank c = true) : isCalleeChar c = false := by
  have hcodes : ∀ n ∈ blankCodes, isCalleeChar (Char.ofNat n) = false := by decide +kernel
  exact of_isBlank (P := fun c => isCalleeChar c = false) hcodes h

theorem isPlain_of_isCalleeChar {c : Char} (h : isCalleeChar c = true) : isPlain c = true :=
  Reading.isPlain_iff.mpr ⟨ne_of_isCalleeChar h (by decide), ne_of_isCalleeChar h (by decide),
    ne_of_isCalleeChar h (by decide), ne_of_isCalleeChar h (by decide)⟩

/-! ## The opening of an argument list -/

theorem exists_of_afterClosingAngle {nested : Bool} {t after : Text}
    (h : afterClosingAngle nested t = some after) : ∃ inside, t = inside ++ '>' :: after := by
  fun_induction afterClosingAngle nested t with
  | case1 => cases h
  | case2 => simp at h
  | case3 nested r _ ih =>
    obtain ⟨inside, rfl⟩ := ih h
    exact ⟨'<' :: inside, rfl⟩
  | case4 r _ ih =>
    obtain ⟨inside, rfl⟩ := ih h
    exact ⟨'>' :: inside, rfl⟩
  | case5 nested r _ _ =>
    injection h with h
    exact ⟨[], by rw [h]; rfl⟩
  | case6 nested c r _ _ ih =>
    obtain ⟨inside, rfl⟩ := ih h
    exact ⟨c :: inside, rfl⟩

/-- Type arguments stand in angle brackets, or there are none. -/
theorem exists_of_afterTypeArguments {t after : Text} (h : afterTypeArguments t = some after) :
    t = after ∨ ∃ inside, t = '<' :: (inside ++ '>' :: after) := by
  cases t with
  | nil => exact .inl (by simpa [afterTypeArguments] using h)
  | cons c r =>
    simp only [afterTypeArguments] at h
    split at h
    · next hc =>
      obtain ⟨inside, rfl⟩ := exists_of_afterClosingAngle h
      exact .inr ⟨inside, by rw [hc]⟩
    · injection h with h
      exact .inl h

/-- Before the opening parenthesis stand blanks only. -/
theorem exists_of_afterParen {t after : Text} (h : afterParen t = some after) :
    ∃ blanks, (∀ c ∈ blanks, isBlank c = true) ∧ t = blanks ++ '(' :: after := by
  have hsplit := List.takeWhile_append_dropWhile (p := isBlank) (l := t)
  unfold afterParen at h
  split at h
  · cases h
  · next c r hdrop =>
    split at h
    · next hc =>
      injection h with h
      refine ⟨t.takeWhile isBlank, fun d hd => List.all_eq_true.mp List.all_takeWhile d hd, ?_⟩
      rw [← h, ← hc, ← hdrop, hsplit]
    · cases h

/-- What may stand before an opening parenthesis: blanks, after type arguments or alone. -/
def IsOpening (opening : Text) : Prop :=
  (∀ c ∈ opening, isBlank c = true) ∨ opening.head? = some '<'

/-- The opening of an argument list ends with its parenthesis. -/
theorem exists_of_afterCallOpening {t after : Text} (h : afterCallOpening t = some after) :
    ∃ opening, t = opening ++ '(' :: after ∧ IsOpening opening := by
  obtain ⟨rest, hrest, hafter⟩ := Option.bind_eq_some_iff.mp h
  obtain ⟨blanks, hblanks, rfl⟩ := exists_of_afterParen hafter
  rcases exists_of_afterTypeArguments hrest with rfl | ⟨inside, rfl⟩
  · exact ⟨blanks, rfl, .inl hblanks⟩
  · exact ⟨'<' :: (inside ++ '>' :: blanks), by simp, .inr rfl⟩

theorem exists_of_calleeAt {callees : List (Text × CalleeKind)} {t name after : Text}
    {kind : CalleeKind} (h : calleeAt callees t = some (name, kind, after)) :
    (name, kind) ∈ callees ∧
      ∃ opening, t = name ++ (opening ++ '(' :: after) ∧ IsOpening opening := by
  obtain ⟨⟨n, k⟩, hmem, hfound⟩ := List.exists_of_findSome?_eq_some h
  dsimp only at hfound
  split at hfound
  · next hprefix =>
    obtain ⟨after', hafter, heq⟩ := Option.map_eq_some_iff.mp hfound
    injection heq with hn heq
    injection heq with hk ha
    subst hn hk ha
    obtain ⟨opening, hopening, hshape⟩ := exists_of_afterCallOpening hafter
    refine ⟨hmem, opening, ?_, hshape⟩
    rw [← hopening]
    exact (List.prefix_iff_eq_append.mp (List.isPrefixOf_iff_prefix.mp hprefix)).symm
  · cases hfound

/-! ## Occurrences by offset -/

/-- The callee whose call starts at an offset, with the text after its parenthesis. -/
def calleeFrom (callees : List (Text × CalleeKind)) (source : Text) (p : Nat) :
    Option (Text × CalleeKind × Text) :=
  if isBoundary (source.take p).reverse.head? source[p]? then calleeAt callees (source.drop p)
  else none

/-- The occurrence that the search finds when it tries an offset of the source text. -/
def occurrenceAt (callees : List (Text × CalleeKind)) (source : Text) (p : Nat) :
    Option Occurrence :=
  match calleeFrom callees source p with
  | some (name, kind, after) =>
    some ⟨⟨name, kind, p, source.length - after.length⟩, endsInDeclaration (source.take p).reverse⟩
  | none => none

theorem calleeAt_of_calleeFrom {callees : List (Text × CalleeKind)} {source : Text} {p : Nat}
    {found : Text × CalleeKind × Text} (h : calleeFrom callees source p = some found) :
    calleeAt callees (source.drop p) = some found := by
  unfold calleeFrom at h
  split at h
  · exact h
  · cases h

/-- An occurrence starts with its name and ends with its parenthesis. -/
theorem occurrenceAt_eq_some {callees : List (Text × CalleeKind)} {source : Text} {p : Nat}
    {o : Occurrence} (h : occurrenceAt callees source p = some o) :
    o.start = p ∧ (o.name, o.kind) ∈ callees ∧
      o.declared = endsInDeclaration (source.take p).reverse ∧
      ∃ opening after, source.drop p = o.name ++ (opening ++ '(' :: after) ∧
        o.stop = p + o.name.length + opening.length + 1 ∧ IsOpening opening := by
  unfold occurrenceAt at h
  split at h
  · next name kind after hfound =>
    injection h with h
    subst h
    obtain ⟨hmem, opening, hdrop, hshape⟩ := exists_of_calleeAt (calleeAt_of_calleeFrom hfound)
    refine ⟨rfl, hmem, rfl, opening, after, hdrop, ?_, hshape⟩
    have hlen := congrArg List.length hdrop
    simp only [List.length_drop, List.length_append, List.length_cons] at hlen
    show source.length - after.length = p + name.length + opening.length + 1
    omega
  · cases h

/-- Nothing is found past the end of a text. -/
theorem occurrenceAt_of_length_le {callees : List (Text × CalleeKind)} {source : Text} {p : Nat}
    (hne : ∀ callee ∈ callees, callee.1 ≠ []) (h : source.length ≤ p) :
    occurrenceAt callees source p = none := by
  refine Option.eq_none_iff_forall_ne_some.mpr ?_
  intro o ho
  obtain ⟨-, hmem, -, opening, after, hdrop, -, -⟩ := occurrenceAt_eq_some ho
  rw [List.drop_eq_nil_of_le h] at hdrop
  exact hne _ hmem (List.append_eq_nil_iff.mp hdrop.symm).1

/-- What the search yields from some offset on, the first `skip` characters left out. -/
structure LeftmostFrom (callees : List (Text × CalleeKind)) (source : Text) (first : Nat)
    (found : List Occurrence) : Prop where
  /-- Every occurrence is found at its offset. -/
  found_at : ∀ o ∈ found, first ≤ o.start ∧ occurrenceAt callees source o.start = some o
  /-- They do not overlap. -/
  pairwise : found.Pairwise fun o o' => o.stop ≤ o'.start
  /-- An occurrence is missing only when an earlier one covers its start. -/
  complete : ∀ p o, first ≤ p → occurrenceAt callees source p = some o →
    o ∈ found ∨ ∃ o' ∈ found, o'.start < p ∧ p < o'.stop

section LeftmostFrom

variable {callees : List (Text × CalleeKind)} {source : Text} {first : Nat} {found : List Occurrence}

/-- The search takes an occurrence and goes on after it. -/
theorem LeftmostFrom.cons {o : Occurrence} (hat : occurrenceAt callees source first = some o)
    {stop : Nat} (hstop : o.stop = stop) (h : LeftmostFrom callees source stop found) :
    LeftmostFrom callees source first (o :: found) := by
  obtain ⟨rfl, -, -, opening, after, -, hend, -⟩ := occurrenceAt_eq_some hat
  have hafter : ∀ o' ∈ found, o.stop ≤ o'.start := fun o' ho' => hstop ▸ (h.found_at o' ho').1
  refine ⟨?_, List.pairwise_cons.mpr ⟨hafter, h.pairwise⟩, ?_⟩
  · intro o' ho'
    rcases List.mem_cons.mp ho' with rfl | ho'
    · exact ⟨Nat.le_refl _, hat⟩
    · have hle := hafter o' ho'
      exact ⟨by omega, (h.found_at o' ho').2⟩
  · intro p o' hp ho'
    rcases Nat.lt_or_ge p o.stop with hlt | hge
    · rcases Nat.eq_or_lt_of_le hp with rfl | hgt
      · rw [hat] at ho'
        injection ho' with ho'
        exact .inl (ho' ▸ List.mem_cons_self)
      · exact .inr ⟨o, List.mem_cons_self, hgt, hlt⟩
    · rcases h.complete p o' (hstop ▸ hge) ho' with hmem | ⟨o'', hmem, hcover⟩
      · exact .inl (List.mem_cons_of_mem o hmem)
      · exact .inr ⟨o'', List.mem_cons_of_mem o hmem, hcover⟩

/-- The search goes on with the next offset where nothing is found. -/
theorem LeftmostFrom.of_none (hnone : occurrenceAt callees source first = none)
    (h : LeftmostFrom callees source (first + 1) found) :
    LeftmostFrom callees source first found := by
  refine ⟨?_, h.pairwise, ?_⟩
  · intro o ho
    obtain ⟨hle, hat⟩ := h.found_at o ho
    exact ⟨Nat.le_of_succ_le hle, hat⟩
  · intro p o hp ho
    rcases Nat.eq_or_lt_of_le hp with rfl | hgt
    · rw [hnone] at ho
      cases ho
    · exact h.complete p o hgt ho

end LeftmostFrom

/-- The search, `before` being the text before it, from its end to its start. -/
theorem leftmostFrom_occurrencesFrom {callees : List (Text × CalleeKind)} (t : Text)
    (hne : ∀ callee ∈ callees, callee.1 ≠ []) (skip : Nat) (before : Text) :
    LeftmostFrom callees (before.reverse ++ t) (before.length + skip)
      (occurrencesFrom callees skip before.length before t) := by
  induction t generalizing skip before with
  | nil =>
    refine ⟨fun o ho => (nomatch ho), List.Pairwise.nil, ?_⟩
    intro p o hp ho
    rw [occurrenceAt_of_length_le hne (by simp; omega)] at ho
    cases ho
  | cons c r ih =>
    have hsource : (c :: before).reverse ++ r = before.reverse ++ c :: r := by simp
    have htake : (before.reverse ++ c :: r).take before.length = before.reverse :=
      List.take_left' List.length_reverse
    have hdrop : (before.reverse ++ c :: r).drop before.length = c :: r :=
      List.drop_left' List.length_reverse
    have hget : (before.reverse ++ c :: r)[before.length]? = some c := by
      rw [← List.head?_drop, hdrop]; rfl
    cases skip with
    | succ skip =>
      -- still inside the occurrence found last: nothing is looked for here
      have h := ih skip (c :: before)
      rw [hsource, List.length_cons, Nat.add_right_comm, Nat.add_assoc] at h
      exact h
    | zero =>
      have hfrom : calleeFrom callees (before.reverse ++ c :: r) before.length =
          if isBoundary before.head? (some c) then calleeAt callees (c :: r) else none := by
        rw [calleeFrom, htake, hdrop, hget, List.reverse_reverse]
      simp only [occurrencesFrom, ← hfrom]
      split
      · -- an occurrence starts here
        next name kind after hfound =>
        obtain ⟨-, opening, htext, -⟩ := exists_of_calleeAt (calleeAt_of_calleeFrom hfound)
        have hlen := congrArg List.length (hdrop.symm.trans htext)
        simp only [List.length_append, List.length_cons] at hlen
        have hstop : (before.reverse ++ c :: r).length - after.length =
            before.length + (r.length + 1 - after.length) := by
          simp only [List.length_append, List.length_reverse, List.length_cons]
          omega
        have hhere : occurrenceAt callees (before.reverse ++ c :: r) before.length =
            some ⟨⟨name, kind, before.length, before.length + (r.length + 1 - after.length)⟩,
              endsInDeclaration before⟩ := by
          rw [← hstop, occurrenceAt, hfound, htake, List.reverse_reverse]
        have h := ih (r.length + 1 - after.length - 1) (c :: before)
        have hfirst : before.length + 1 + (r.length + 1 - after.length - 1) =
            before.length + (r.length + 1 - after.length) := by omega
        rw [hsource, List.length_cons, hfirst] at h
        exact LeftmostFrom.cons hhere rfl h
      · -- none does
        next hnone =>
        have h := ih 0 (c :: before)
        rw [hsource] at h
        exact LeftmostFrom.of_none (by rw [Nat.add_zero, occurrenceAt, hnone]) h

/-- No occurrence found covers the start of another one. -/
theorem LeftmostFrom.not_covers {callees : List (Text × CalleeKind)} {source : Text} {first : Nat}
    {found : List Occurrence} (h : LeftmostFrom callees source first found) {o o' : Occurrence}
    (ho : o ∈ found) (ho' : o' ∈ found) : ¬ (o'.start < o.start ∧ o.start < o'.stop) := by
  have hpair := h.pairwise
  have hle : ∀ o ∈ found, o.start ≤ o.stop := by
    intro o ho
    obtain ⟨-, -, -, opening, after, -, hstop, -⟩ := occurrenceAt_eq_some (h.found_at o ho).2
    omega
  clear h
  induction found with
  | nil => cases ho
  | cons a found ih =>
    obtain ⟨hfirst, hrest⟩ := List.pairwise_cons.mp hpair
    have ha := hle a List.mem_cons_self
    rcases List.mem_cons.mp ho with heq | hmem
    · rcases List.mem_cons.mp ho' with heq' | hmem'
      · rw [heq, heq']
        omega
      · have := hfirst o' hmem'
        rw [heq]
        omega
    · rcases List.mem_cons.mp ho' with heq' | hmem'
      · have := hfirst o hmem
        rw [heq']
        omega
      · exact ih hmem hmem' hrest fun b hb => hle b (List.mem_cons_of_mem a hb)

/-- **The search**: occurrences stand where they are found, do not overlap, and leave out nothing
but what an earlier one covers. -/
theorem occurrences_spec (names : MonitoredNames) (source : Text) :
    LeftmostFrom names.callees source 0 (occurrences names source) :=
  leftmostFrom_occurrencesFrom source (fun ⟨_, _⟩ h => (names.callees_chars h).1)
    0 []

/-! ## Calls -/

/-- Whether an occurrence is a call: it starts in code and is not declared. -/
def Occurrence.isCall (source : Text) (o : Occurrence) : Bool :=
  (classify source o.start).isCode && !o.declared

theorem Occurrence.isCall_iff {source : Text} {o : Occurrence} :
    o.isCall source = true ↔ classify source o.start = .code ∧ o.declared = false := by
  simp [Occurrence.isCall]

namespace MonitoredCall

/-- Asking the tracker about one occurrence after the other gives each its own lexical state. -/
theorem ofOccurrences_eq {t : Tracker} (h : t.Sound) (found : List Occurrence) :
    ofOccurrences t found = (found.filter (·.isCall t.source)).map (·.toMonitoredCall) := by
  induction found generalizing t with
  | nil => rfl
  | cons o rest ih =>
    obtain ⟨hsound, hsource⟩ := h.stateAt o.start
    show (if (t.stateAt o.start).1.isCode && !o.declared then
        o.toMonitoredCall :: ofOccurrences (t.stateAt o.start).2 rest
      else ofOccurrences (t.stateAt o.start).2 rest) = _
    rw [h.stateAt_eq, ih hsound, hsource]
    show (if o.isCall t.source then _ else _) = _
    by_cases hcall : o.isCall t.source = true
    · rw [if_pos hcall, List.filter_cons_of_pos hcall, List.map_cons]
    · rw [if_neg hcall, List.filter_cons_of_neg hcall]

/-- The calls are the occurrences that start in code and are not declared. -/
theorem findAll_eq (source : Text) (names : MonitoredNames) :
    findAll source names =
      ((occurrences names source).filter (·.isCall source)).map (·.toMonitoredCall) :=
  ofOccurrences_eq (Tracker.ofSource_sound source) _

theorem mem_findAll {source : Text} {names : MonitoredNames} {call : MonitoredCall} :
    call ∈ findAll source names ↔
      ∃ o ∈ occurrences names source, o.isCall source = true ∧ o.toMonitoredCall = call := by
  rw [findAll_eq, List.mem_map]
  simp only [List.mem_filter, and_assoc]

end MonitoredCall
end SourceStamp
