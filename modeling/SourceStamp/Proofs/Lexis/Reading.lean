import SourceStamp.Lexis.Scanner

/-!
# Reading a source text character by character

The scanner consumes a delimiter of two characters in one step, so its positions skip some offsets.
Statements about *every* offset of a text are easier over a reader that takes one character at a
time and remembers whether it stands inside a delimiter:

- `Reading`: a lexical state, with the character before it and whether a delimiter is half read;
- `Reading.read`: a stretch of text read from a given reading, with one character of look-ahead
  past its end. `Reading.read_append` cuts a stretch in two;
- `readingAt`: the reading of a source text at an offset, and `Scanner.Follows`: a scanner that
  stands at such a reading. Scanner steps keep it (`Scanner.Follows.step`);
- `classify_eq`: the state of the reading is the one that `classify` answers.

Two readings that `Agree` read every text alike: only strings and templates look back at the
character before them. A reading that is `InCode` looks back at nothing, which is what makes a text
readable from the middle.
-/

namespace SourceStamp

/-- Where a reader of a text stands. -/
structure Reading where
  /-- The lexical state, that of the delimiter if one is half read. -/
  state : LexicalState
  /-- Whether the next character is the second one of a delimiter. -/
  halfway : Bool
  /-- The character read last. -/
  previous : Option Char
  deriving DecidableEq, Repr

namespace Reading

/-- The reading before any character. -/
def start : Reading := ⟨.code, false, none⟩

/-- Reads a character; `following` is the one after it. -/
def next (r : Reading) (c : Char) (following : Option Char) : Reading :=
  if r.halfway then ⟨r.state, false, some c⟩
  else
    let m := r.state.move (r.previous == some Text.backslash) c following
    ⟨m.after, m.takesNext, some c⟩

/-- Reads a stretch of text; `following` is the character after its end. -/
def read (following : Option Char) (r : Reading) : Text → Reading
  | [] => r
  | c :: t => read following (r.next c (t.head?.or following)) t

@[simp] theorem read_nil (following : Option Char) (r : Reading) : r.read following [] = r := rfl

@[simp] theorem read_cons (following : Option Char) (r : Reading) (c : Char) (t : Text) :
    r.read following (c :: t) = (r.next c (t.head?.or following)).read following t := rfl

/-- A stretch is read by reading its two parts in turn. -/
theorem read_append (following : Option Char) (r : Reading) (x y : Text) :
    r.read following (x ++ y) = (r.read (y.head?.or following) x).read following y := by
  induction x generalizing r with
  | nil => rfl
  | cons c t ih =>
    rw [List.cons_append, read_cons, read_cons, ih, List.head?_append, Option.or_assoc]

@[simp] theorem next_previous (r : Reading) (c : Char) (following : Option Char) :
    (r.next c following).previous = some c := by
  unfold next
  split <;> rfl

/-- The second character of a delimiter only completes it. -/
theorem next_of_halfway {r : Reading} (h : r.halfway = true) (c : Char) (following : Option Char) :
    r.next c following = ⟨r.state, false, some c⟩ := by
  rw [next, if_pos h]

theorem next_of_not_halfway {r : Reading} (h : r.halfway = false) (c : Char)
    (following : Option Char) :
    r.next c following =
      ⟨(r.state.move (r.previous == some Text.backslash) c following).after,
        (r.state.move (r.previous == some Text.backslash) c following).takesNext, some c⟩ := by
  rw [next, if_neg (by simp [h])]

/-! ## What a reading depends on -/

/-- Whether the next step asks for the character before it. -/
def looksBack (r : Reading) : Bool := !r.halfway && r.state.inString

/-- Two readings agree when nothing that follows can tell them apart. -/
structure Agree (r r' : Reading) : Prop where
  state_eq : r.state = r'.state
  halfway_eq : r.halfway = r'.halfway
  previous_eq : r.looksBack = true → r.previous = r'.previous

theorem Agree.refl (r : Reading) : r.Agree r := ⟨rfl, rfl, fun _ => rfl⟩

theorem Agree.symm {r r' : Reading} (h : r.Agree r') : r'.Agree r := by
  refine ⟨h.state_eq.symm, h.halfway_eq.symm, fun hl => (h.previous_eq ?_).symm⟩
  rw [looksBack, h.state_eq, h.halfway_eq]
  exact hl

theorem Agree.trans {r r' r'' : Reading} (h : r.Agree r') (h' : r'.Agree r'') : r.Agree r'' := by
  refine ⟨h.state_eq.trans h'.state_eq, h.halfway_eq.trans h'.halfway_eq, ?_⟩
  intro hl
  refine (h.previous_eq hl).trans (h'.previous_eq ?_)
  rw [looksBack, ← h.state_eq, ← h.halfway_eq]
  exact hl

/-- Outside strings and templates it does not matter whether a character is escaped. -/
theorem move_eq_of_not_inString {s : LexicalState} (h : s.inString = false) (e e' : Bool) (c : Char)
    (following : Option Char) : s.move e c following = s.move e' c following := by
  cases s with
  | string => simp [LexicalState.inString] at h
  | template => simp [LexicalState.inString] at h
  | _ => rfl

/-- Readings that agree are the same after one more character. -/
theorem Agree.next_eq {r r' : Reading} (h : r.Agree r') (c : Char) (following : Option Char) :
    r.next c following = r'.next c following := by
  by_cases hh : r.halfway = true
  · rw [next_of_halfway hh, next_of_halfway (h.halfway_eq ▸ hh), h.state_eq]
  · have hh : r.halfway = false := by simpa using hh
    rw [next_of_not_halfway hh, next_of_not_halfway (h.halfway_eq ▸ hh), ← h.state_eq]
    by_cases hs : r.state.inString = true
    · rw [h.previous_eq (by simp [looksBack, hh, hs])]
    · rw [move_eq_of_not_inString (by simpa using hs)]

theorem Agree.read {r r' : Reading} (h : r.Agree r') (following : Option Char) (t : Text) :
    (r.read following t).Agree (r'.read following t) := by
  cases t with
  | nil => exact h
  | cons c t =>
    rw [read_cons, read_cons, h.next_eq]
    exact Agree.refl _

/-- Whether a character can be the second one of a delimiter. -/
def IsSecond (following : Option Char) : Prop :=
  following = some '/' ∨ following = some '*' ∨ following = some '{'

/-- The character after the next one matters only if it can complete a delimiter. -/
theorem next_eq_of_not_isSecond {f f' : Option Char} (h : ¬ IsSecond f) (h' : ¬ IsSecond f')
    (r : Reading) (c : Char) : r.next c f = r.next c f' := by
  simp only [IsSecond, not_or] at h h'
  obtain ⟨h1, h2, h3⟩ := h
  obtain ⟨h1', h2', h3'⟩ := h'
  by_cases hh : r.halfway = true
  · rw [next_of_halfway hh, next_of_halfway hh]
  · have hh : r.halfway = false := by simpa using hh
    rw [next_of_not_halfway hh, next_of_not_halfway hh]
    cases r.state <;> simp [LexicalState.move, h1, h2, h3, h1', h2', h3']

theorem read_eq_of_not_isSecond {f f' : Option Char} (h : ¬ IsSecond f) (h' : ¬ IsSecond f')
    (r : Reading) (t : Text) : r.read f t = r.read f' t := by
  induction t generalizing r with
  | nil => rfl
  | cons c t ih =>
    rw [read_cons, read_cons, ih]
    cases t with
    | nil => exact congrArg (·.read f' []) (next_eq_of_not_isSecond h h' r c)
    | cons d t => rfl

/-! ## Readings in code -/

/-- The next character is code and begins whatever it belongs to. -/
structure InCode (r : Reading) : Prop where
  state_eq : r.state = .code
  halfway_eq : r.halfway = false

theorem start_inCode : start.InCode := ⟨rfl, rfl⟩

theorem InCode.agree {r r' : Reading} (h : r.InCode) (h' : r'.InCode) : r.Agree r' := by
  refine ⟨h.state_eq.trans h'.state_eq.symm, h.halfway_eq.trans h'.halfway_eq.symm, ?_⟩
  intro hl
  simp [looksBack, h.state_eq, LexicalState.inString] at hl

theorem Agree.inCode {r r' : Reading} (h : r.Agree r') (hc : r.InCode) : r'.InCode :=
  ⟨h.state_eq ▸ hc.state_eq, h.halfway_eq ▸ hc.halfway_eq⟩

/-- A character in code that opens nothing leaves the reader in code. -/
theorem InCode.next {r : Reading} (h : r.InCode) {c : Char} (hd : c ≠ Text.doubleQuote)
    (hs : c ≠ Text.singleQuote) (hb : c ≠ Text.backtick) {following : Option Char}
    (ho : c ≠ '/' ∨ following ≠ some '/' ∧ following ≠ some '*') :
    (r.next c following).InCode := by
  rw [next_of_not_halfway h.halfway_eq, h.state_eq]
  rcases ho with ho | ho <;> constructor <;> simp [LexicalState.move, hd, hs, hb, ho]

/-- A reading that a character left in code would also be in code before another character after
it, unless that one makes the opener of a comment with it. -/
theorem InCode.change_following {r : Reading} {c : Char} {f f' : Option Char}
    (h : (r.next c f).InCode) (h1 : f' ≠ some '/') (h2 : f' ≠ some '*') :
    r.next c f' = r.next c f := by
  by_cases hh : r.halfway = true
  · rw [next_of_halfway hh, next_of_halfway hh]
  · have hh : r.halfway = false := by simpa using hh
    rw [next_of_not_halfway hh] at h
    rw [next_of_not_halfway hh, next_of_not_halfway hh]
    obtain ⟨hs, ht⟩ := h
    dsimp only at hs ht
    cases hst : r.state with
    | code =>
      by_cases hc : c = '/'
      · subst hc
        have hf1 : f ≠ some '/' := by rintro rfl; simp [LexicalState.move, hst] at hs
        have hf2 : f ≠ some '*' := by rintro rfl; simp [LexicalState.move, hst] at hs
        simp [LexicalState.move, h1, h2, hf1, hf2]
      · simp [LexicalState.move, hc]
    | string q => rfl
    | template d =>
      rw [hst] at hs
      -- a dollar sign is no backtick, so it never leads back to code
      have hc : c ≠ '$' := by
        rintro rfl
        simp only [LexicalState.move] at hs
        split at hs <;> simp_all [Text.backtick]
        split at hs <;> simp_all
      simp [LexicalState.move, hc]
    | lineComment => rfl
    | blockComment =>
      have hc : ¬ (c = '*' ∧ f = some '/') := by
        rintro ⟨rfl, rfl⟩
        simp [LexicalState.move, hst] at ht
      simp [LexicalState.move, hst, hc] at hs

/-- The same for a whole stretch of text that ends in code. -/
theorem read_change_following {f f' : Option Char} (h1 : f' ≠ some '/') (h2 : f' ≠ some '*')
    {r : Reading} {t : Text} (h : (r.read f t).InCode) : r.read f' t = r.read f t := by
  induction t generalizing r with
  | nil => rfl
  | cons c t ih =>
    cases t with
    | nil => exact InCode.change_following h h1 h2
    | cons d t =>
      rw [read_cons] at h
      rw [read_cons, read_cons f, ← ih h]
      rfl

end Reading

/-! ## The readings of a source text -/

/-- The reading of a source text at an offset. -/
def readingAt (source : Text) (offset : Nat) : Reading :=
  Reading.start.read source[offset]? (source.take offset)

/-- The reading at a later offset goes on from the one at an earlier offset. -/
theorem readingAt_add (source : Text) (p k : Nat) :
    readingAt source (p + k) =
      (readingAt source p).read source[p + k]? ((source.drop p).take k) := by
  have hhead : (((source.drop p).take k).head?.or source[p + k]?) = source[p]? := by
    cases k with
    | zero => simp
    | succ k =>
      rw [List.head?_take, if_neg (Nat.succ_ne_zero k), List.head?_drop]
      by_cases hp : p < source.length
      · simp [hp]
      · simp [List.getElem?_eq_none (Nat.le_of_not_lt hp),
          List.getElem?_eq_none (Nat.le_trans (Nat.le_of_not_lt hp) (Nat.le_add_right _ _))]
  rw [readingAt, readingAt, List.take_add, Reading.read_append, hhead]

theorem readingAt_succ {source : Text} {p : Nat} (h : p < source.length) :
    readingAt source (p + 1) = (readingAt source p).next source[p] source[p + 1]? := by
  rw [readingAt_add, List.drop_eq_getElem_cons h, List.take_succ_cons, List.take_zero,
    Reading.read_cons, Reading.read_nil, List.head?_nil, Option.none_or]

/-- Past the end of a text nothing changes. -/
theorem readingAt_of_length_le {source : Text} {p : Nat} (h : source.length ≤ p) :
    readingAt source p = readingAt source source.length := by
  rw [readingAt, readingAt, List.take_of_length_le h, List.take_length,
    List.getElem?_eq_none h, List.getElem?_eq_none (Nat.le_refl _)]

/-- The character read last is the one before the offset. -/
theorem readingAt_previous {source : Text} {p : Nat} (h : p ≤ source.length) :
    (readingAt source p).previous = if p = 0 then none else source[p - 1]? := by
  cases p with
  | zero => rfl
  | succ p =>
    rw [readingAt_succ h, Reading.next_previous, if_neg (Nat.succ_ne_zero p),
      Nat.add_sub_cancel, List.getElem?_eq_getElem]

/-! ## Scanners follow the readings -/

namespace Scanner

/-- The scanner stands at an offset of the source text that no delimiter spans, with the lexical
state that holds there. -/
structure Follows (source : Text) (s : Scanner) : Prop where
  position_le : s.position ≤ source.length
  rest_eq : s.rest = source.drop s.position
  reading_eq : readingAt source s.position = ⟨s.state, false, s.previous⟩

variable {source : Text} {s : Scanner}

theorem start_follows (source : Text) : (start source).Follows source :=
  ⟨Nat.zero_le _, rfl, rfl⟩

/-- A checkpoint between delimiters, with the right state, is as good as the start. -/
theorem ofCheckpoint_follows {p : Nat} {state : LexicalState} (hp : p ≤ source.length)
    (hs : (readingAt source p).state = state) (hh : (readingAt source p).halfway = false) :
    (ofCheckpoint source ⟨p, state⟩).Follows source := by
  refine ⟨hp, rfl, ?_⟩
  have hprev := readingAt_previous hp
  show readingAt source p = ⟨state, false, if p = 0 then none else source[p - 1]?⟩
  rw [← hprev, ← hs, ← hh]

/-- What follows the position of a scanner, as characters of the source text. -/
theorem Follows.getElem_of_rest {c : Char} {r : Text} (h : s.Follows source)
    (hr : s.rest = c :: r) :
    ∃ hp : s.position < source.length,
      source[s.position] = c ∧ r = source.drop (s.position + 1) := by
  have hrest := h.rest_eq
  have hp : s.position < source.length := by
    refine Nat.lt_of_not_le ?_
    intro hle
    rw [hr, List.drop_eq_nil_of_le hle] at hrest
    cases hrest
  rw [hr, List.drop_eq_getElem_cons hp] at hrest
  injection hrest with h1 h2
  exact ⟨hp, h1.symm, h2⟩

/-- One character further, read from a scanner's place. -/
theorem Follows.readingAt_succ {c : Char} {r : Text} (h : s.Follows source) (hr : s.rest = c :: r) :
    readingAt source (s.position + 1) =
      ⟨(s.state.move s.escaped c r.head?).after, (s.state.move s.escaped c r.head?).takesNext,
        some c⟩ := by
  obtain ⟨hp, hc, hrest⟩ := h.getElem_of_rest hr
  have hnext : r.head? = source[s.position + 1]? := by rw [hrest, List.head?_drop]
  rw [SourceStamp.readingAt_succ hp, h.reading_eq, Reading.next_of_not_halfway rfl, hc, hnext]
  rfl

/-- A step over one character. -/
theorem step_of_not_takesNext {c : Char} {r : Text} (hr : s.rest = c :: r)
    (ht : (s.state.move s.escaped c r.head?).takesNext = false) :
    s.step = ⟨s.position + 1, some c, r, (s.state.move s.escaped c r.head?).after⟩ := by
  unfold Scanner.step
  rw [hr]
  cases r with
  | nil => rfl
  | cons d r => exact if_neg (by rw [List.head?_cons] at ht; simp [ht])

/-- A step over a delimiter of two characters. -/
theorem step_of_takesNext {c : Char} {r : Text} (hr : s.rest = c :: r)
    (ht : (s.state.move s.escaped c r.head?).takesNext = true) :
    ∃ d r', r = d :: r' ∧
      s.step = ⟨s.position + 2, some d, r', (s.state.move s.escaped c r.head?).after⟩ := by
  cases r with
  | nil => exact nomatch LexicalState.takesNext_isSome ht
  | cons d r =>
    refine ⟨d, r, rfl, ?_⟩
    unfold Scanner.step
    rw [hr]
    exact if_pos ht

/-- A scanner with text left moves forward. -/
theorem position_lt_step {c : Char} {r : Text} (hr : s.rest = c :: r) :
    s.position < s.step.position := by
  cases ht : (s.state.move s.escaped c r.head?).takesNext with
  | false =>
    rw [step_of_not_takesNext hr ht]
    exact Nat.lt_succ_self _
  | true =>
    obtain ⟨d, r', -, hstep⟩ := step_of_takesNext hr ht
    rw [hstep]
    exact Nat.lt_succ_of_lt (Nat.lt_succ_self _)

/-- A step of the scanner leads from reading to reading. -/
theorem Follows.step (h : s.Follows source) : s.step.Follows source := by
  cases hr : s.rest with
  | nil =>
    have hstep : s.step = s := by rw [Scanner.step, hr]
    rw [hstep]
    exact h
  | cons c r =>
    obtain ⟨hp, -, hrest⟩ := h.getElem_of_rest hr
    have hread := h.readingAt_succ hr
    cases ht : (s.state.move s.escaped c r.head?).takesNext with
    | false =>
      rw [step_of_not_takesNext hr ht]
      rw [ht] at hread
      exact ⟨hp, hrest, hread⟩
    | true =>
      obtain ⟨d, r', rfl, hstep⟩ := step_of_takesNext hr ht
      rw [hstep]
      rw [ht] at hread
      have hp' : s.position + 1 < source.length := by
        have := congrArg List.length hrest
        rw [List.length_cons, List.length_drop] at this
        omega
      rw [List.drop_eq_getElem_cons hp'] at hrest
      injection hrest with hd hr'
      refine ⟨hp', hr', ?_⟩
      show readingAt source (s.position + 1 + 1) = _
      rw [SourceStamp.readingAt_succ hp', hread, Reading.next_of_halfway rfl, ← hd]

end Scanner
end SourceStamp
