import SourceStamp.Call.ArgumentList
import SourceStamp.Proofs.Lexis.Classification
import SourceStamp.Proofs.Lexis.CodeText

/-!
# What the outline of an argument list knows

The outline is a fold over the visits of a text. A visit is *significant* when it shows neither a
blank nor a part of a comment. The invariant `Outline.Tracks` says of an outline and the scanner
that has come as far:

- the last significant visit is remembered, and if the scanner is out of all strings by now, the
  text was code again right after it;
- every open bracket is an opener in code, and one that was the last significant visit is innermost;
- every pair of braces is made of braces in code, with a known last significant visit inside
  (`PairAt`).

`Outline.Tracks.add` is the step, `Outline.tracks_ofText` the whole text, and `lastObject_at`,
`gap_of_isEmpty` are what a layout inherits from it.
-/

namespace SourceStamp

open Text (isBlank)

/-- The character is neither blank nor a part of a comment. -/
def Visit.isSignificant (v : Visit) : Bool :=
  !(v.state.inComment || isBlank v.char) && !(v.state.isCode && Outline.opensComment v)

/-- Whether a significant character stands at an offset of a text. -/
def isSignificantAt (t : Text) (p : Nat) : Bool :=
  t[p]?.any fun c => !(readingAt t p).halfway &&
    Visit.isSignificant ⟨p, c, t[p + 1]?, (readingAt t p).state⟩

/-- Nothing significant stands from one offset up to another. -/
def Gap (t : Text) (first stop : Nat) : Prop :=
  ∀ p, isSignificantAt t p = true → first ≤ p → stop ≤ p

/-- A character of code is significant unless it is a blank or may open a comment. -/
theorem CodeAt.isSignificantAt {t : Text} {p : Nat} {c : Char} (h : CodeAt t p c)
    (hb : isBlank c = false) (hs : c ≠ '/') : isSignificantAt t p = true := by
  rw [SourceStamp.isSignificantAt, h.get_eq, h.inCode.halfway_eq, h.inCode.state_eq]
  simp [Visit.isSignificant, Outline.opensComment, LexicalState.inComment, hb, hs]

/-! ## Significance along a scan -/

namespace Scanner

variable {t r : Text} {s : Scanner} {c : Char}

/-- What a scanner is about to visit is significant when the text is so at its position. -/
theorem Follows.isSignificantAt_eq (h : s.Follows t) (hr : s.rest = c :: r) :
    isSignificantAt t s.position =
      Visit.isSignificant ⟨s.position, c, r.head?, s.state⟩ := by
  obtain ⟨hp, hc, hrest⟩ := h.getElem_of_rest hr
  rw [SourceStamp.isSignificantAt, List.getElem?_eq_getElem hp, hc, h.reading_eq, hrest,
    List.head?_drop]
  rfl

/-- A scan passes over a gap as long as its visits are not significant. -/
theorem Follows.gap_step (h : s.Follows t) (hr : s.rest = c :: r) {first : Nat}
    (hgap : Gap t first s.position)
    (hs : s.position < first ∨
      Visit.isSignificant ⟨s.position, c, r.head?, s.state⟩ = false) :
    Gap t first s.step.position := by
  intro p hp hle
  have hne : s.position ≠ p := by
    rintro rfl
    rcases hs with hs | hs
    · omega
    · rw [h.isSignificantAt_eq hr, hs] at hp
      cases hp
  have hlt : s.position < p := Nat.lt_of_le_of_ne (hgap p hp hle) hne
  cases ht : (s.state.move s.escaped c r.head?).takesNext with
  | false => rw [step_of_not_takesNext hr ht]; exact hlt
  | true =>
    -- the second character of a delimiter is not significant on its own
    obtain ⟨d, r', -, hstep⟩ := step_of_takesNext hr ht
    rw [hstep]
    refine Nat.lt_of_le_of_ne hlt ?_
    intro heq
    have hread := h.readingAt_succ hr
    rw [heq, ht] at hread
    simp [SourceStamp.isSignificantAt, hread] at hp

end Scanner

/-! ## The outline after one visit -/

namespace Outline

@[simp] theorem mark_openBrackets (o : Outline) (v : Visit) :
    (o.mark v).openBrackets = o.openBrackets := by
  unfold mark
  split <;> rfl

@[simp] theorem mark_braces (o : Outline) (v : Visit) : (o.mark v).braces = o.braces := by
  unfold mark
  split <;> rfl

@[simp] theorem mark_last (o : Outline) (v : Visit) : (o.mark v).last = o.last := by
  unfold mark
  split <;> rfl

@[simp] theorem touch_openBrackets (o : Outline) (v : Visit) :
    (o.touch v).openBrackets = o.openBrackets := rfl

@[simp] theorem touch_braces (o : Outline) (v : Visit) : (o.touch v).braces = o.braces := rfl

theorem close_openBrackets (o : Outline) (v : Visit) :
    (o.close v).openBrackets = o.openBrackets.tail := by
  unfold close
  split
  · next h => rw [h]; rfl
  · next opener opened rest h =>
    rw [h]
    dsimp only
    split <;> rfl

/-- The only pair that a closing bracket adds is one of braces, outside all other brackets. -/
theorem mem_close_braces {o : Outline} {v : Visit} {b : BracePair} (h : b ∈ (o.close v).braces) :
    b ∈ o.braces ∨
      ∃ opened, o.openBrackets = [('{', opened)] ∧ v.char = '}' ∧ b = o.bracePair opened v := by
  unfold close at h
  split at h
  · exact .inl h
  · next opener opened rest hopen =>
    dsimp only at h
    split at h
    · next hpair =>
      obtain ⟨rfl, hc, rfl⟩ := hpair
      rcases List.mem_cons.mp h with rfl | h
      · exact .inr ⟨opened, hopen, hc, rfl⟩
      · exact .inl h
    · exact .inl h

theorem addCode_last (o : Outline) (v : Visit) :
    (o.addCode v).last = some (v.position, v.char) := rfl

theorem addCode_openBrackets (o : Outline) (v : Visit) :
    (o.addCode v).openBrackets =
      if isOpener v.char then (v.char, v.position) :: o.openBrackets
      else if isCloser v.char then o.openBrackets.tail
      else o.openBrackets := by
  have hmarked : (if v.char = ',' then o else o.mark v).openBrackets = o.openBrackets := by
    split <;> simp
  unfold addCode
  dsimp only
  rw [touch_openBrackets]
  split
  · rfl
  · split
    · rw [close_openBrackets, hmarked]
    · split <;> exact hmarked

theorem mem_addCode_braces {o : Outline} {v : Visit} {b : BracePair}
    (h : b ∈ (o.addCode v).braces) :
    b ∈ o.braces ∨
      ∃ opened, o.openBrackets = [('{', opened)] ∧ v.char = '}' ∧ b = o.bracePair opened v := by
  have hbraces : (if v.char = ',' then o else o.mark v).braces = o.braces := by split <;> simp
  have hopen : (if v.char = ',' then o else o.mark v).openBrackets = o.openBrackets := by
    split <;> simp
  have hlast : (if v.char = ',' then o else o.mark v).last = o.last := by split <;> simp
  have hpair : ∀ opened, (if v.char = ',' then o else o.mark v).bracePair opened v =
      o.bracePair opened v := fun opened => by unfold bracePair; rw [hlast]
  unfold addCode at h
  dsimp only at h
  rw [touch_braces] at h
  split at h
  · exact .inl (hbraces ▸ h)
  · split at h
    · rcases mem_close_braces h with h | ⟨opened, ho, hc, rfl⟩
      · exact .inl (hbraces ▸ h)
      · exact .inr ⟨opened, hopen ▸ ho, hc, hpair opened⟩
    · split at h <;> exact .inl (hbraces ▸ h)

/-- A visit that is not significant changes nothing. -/
theorem add_of_not_isSignificant {o : Outline} {v : Visit} (h : v.isSignificant = false) :
    o.add v = o := by
  unfold add
  simp only [Visit.isSignificant, Bool.and_eq_false_iff, Bool.not_eq_false'] at h
  rcases h with h | h
  · rw [if_pos h]
  · obtain ⟨hcode, hopens⟩ := Bool.and_eq_true_iff.mp h
    rw [hcode, hopens]
    split <;> simp

/-- A significant visit in code is worked into the outline; one in a string or template only leaves
its mark. -/
theorem add_of_isSignificant {o : Outline} {v : Visit} (h : v.isSignificant = true) :
    o.add v = if v.state.isCode then o.addCode v else (o.mark v).touch v := by
  unfold add
  simp only [Visit.isSignificant, Bool.and_eq_true, Bool.not_eq_true'] at h
  obtain ⟨hvisible, hopens⟩ := h
  rw [hvisible, if_neg Bool.false_ne_true]
  cases hcode : v.state.isCode with
  | false => rfl
  | true =>
    rw [hcode, Bool.true_and] at hopens
    rw [hopens]
    rfl

theorem add_last_of_isSignificant {o : Outline} {v : Visit} (h : v.isSignificant = true) :
    (o.add v).last = some (v.position, v.char) := by
  rw [add_of_isSignificant h]
  split
  · exact addCode_last o v
  · rfl

theorem isBlank_of_isOpener (h : isOpener c = true) : isBlank c = false := by
  simp only [isOpener, Bool.or_eq_true, beq_iff_eq] at h
  rcases h with (rfl | rfl) | rfl <;> decide

theorem ne_slash_of_isOpener (h : isOpener c = true) : c ≠ '/' := by
  rintro rfl
  revert h
  decide

theorem ne_slash_of_isCloser {c : Char} (h : isCloser c = true) : c ≠ '/' := by
  rintro rfl
  revert h
  decide

theorem isBlank_of_isCloser {c : Char} (h : isCloser c = true) : Text.isBlank c = false := by
  simp only [isCloser, Bool.or_eq_true, beq_iff_eq] at h
  rcases h with (rfl | rfl) | rfl <;> decide

/-- A bracket in code is significant. -/
theorem isSignificant_of_bracket {v : Visit} (hcode : v.state = .code)
    (hc : isOpener v.char = true ∨ isCloser v.char = true) : v.isSignificant = true := by
  have hblank : Text.isBlank v.char = false := hc.elim isBlank_of_isOpener isBlank_of_isCloser
  have hslash : v.char ≠ '/' := hc.elim ne_slash_of_isOpener ne_slash_of_isCloser
  simp [Visit.isSignificant, opensComment, hcode, LexicalState.inComment, hblank, hslash]

/-- Only brackets in code change which brackets are open. -/
theorem add_openBrackets (o : Outline) (v : Visit) :
    (o.add v).openBrackets =
      if v.state = .code ∧ isOpener v.char = true then (v.char, v.position) :: o.openBrackets
      else if v.state = .code ∧ isCloser v.char = true then o.openBrackets.tail
      else o.openBrackets := by
  cases hs : v.isSignificant with
  | false =>
    have hno : ∀ {b : Bool}, (b = true → isOpener v.char = true ∨ isCloser v.char = true) →
        ¬ (v.state = .code ∧ b = true) := fun hb ⟨hcode, hc⟩ => by
      rw [isSignificant_of_bracket hcode (hb hc)] at hs
      cases hs
    rw [add_of_not_isSignificant hs, if_neg (hno .inl), if_neg (hno .inr)]
  | true =>
    rw [add_of_isSignificant hs]
    cases hcode : v.state.isCode with
    | false =>
      have hstate : v.state ≠ .code := fun h => by rw [h] at hcode; cases hcode
      simp [hstate]
    | true =>
      rw [if_pos rfl, addCode_openBrackets]
      simp [LexicalState.isCode_iff.mp hcode]

theorem mem_add_openBrackets {o : Outline} {v : Visit} {b : Char × Nat}
    (h : b ∈ (o.add v).openBrackets) :
    b ∈ o.openBrackets ∨
      v.state = .code ∧ isOpener v.char = true ∧ b = (v.char, v.position) := by
  rw [add_openBrackets] at h
  split at h
  · next hopener =>
    rcases List.mem_cons.mp h with rfl | h
    · exact .inr ⟨hopener.1, hopener.2, rfl⟩
    · exact .inl h
  · split at h
    · exact .inl (List.mem_of_mem_tail h)
    · exact .inl h

/-- A new pair of braces closes at the visit, and nothing else is open there. -/
theorem mem_add_braces {o : Outline} {v : Visit} {b : BracePair} (h : b ∈ (o.add v).braces) :
    b ∈ o.braces ∨
      v.state = .code ∧ ∃ opened, o.openBrackets = [('{', opened)] ∧ v.char = '}' ∧
        b = o.bracePair opened v := by
  cases hs : v.isSignificant with
  | false =>
    rw [add_of_not_isSignificant hs] at h
    exact .inl h
  | true =>
    rw [add_of_isSignificant hs] at h
    split at h
    · next hcode => exact (mem_addCode_braces h).imp_right (⟨LexicalState.isCode_iff.mp hcode, ·⟩)
    · rw [touch_braces, mark_braces] at h
      exact .inl h

end Outline

/-! ## The invariant -/

/-- A pair of braces of a text: both are in code, and `lastInside` is the last significant offset
before the closing one, where the text is still or again code after it. It is the opening brace
itself, or no opener. -/
structure PairAt (t : Text) (b : BracePair) : Prop where
  opened_at : CodeAt t b.opened '{'
  closed_at : CodeAt t b.closed '}'
  opened_le : b.opened ≤ b.lastInside
  lastInside_lt : b.lastInside < b.closed
  significant : isSignificantAt t b.lastInside = true
  gap : Gap t (b.lastInside + 1) b.closed
  inCode_succ : (readingAt t (b.lastInside + 1)).InCode
  not_opener : b.lastInside ≠ b.opened → ∀ c, CodeAt t b.lastInside c → Outline.isOpener c = false

namespace Outline

/-- The offset is that of the last significant character before a scanner. -/
structure LastBefore (t : Text) (s : Scanner) (o : Outline) (p : Nat) : Prop where
  significant : isSignificantAt t p = true
  lt : p < s.position
  gap : Gap t (p + 1) s.position
  /-- An opener there is still the innermost open bracket. -/
  innermost : ∀ c, CodeAt t p c → isOpener c = true → o.openBrackets.head? = some (c, p)
  /-- No string or template reaches from there to a scanner outside of them. -/
  settled : s.state.inString = false → (readingAt t (p + 1)).InCode

/-- What an outline knows of the text before a scanner. -/
structure Tracks (t : Text) (s : Scanner) (o : Outline) : Prop where
  nothing : o.last = none → Gap t 0 s.position
  last_before : ∀ p c, o.last = some (p, c) → LastBefore t s o p
  open_at : ∀ b ∈ o.openBrackets, CodeAt t b.2 b.1 ∧ isOpener b.1 = true ∧ b.2 < s.position
  pair_at : ∀ b ∈ o.braces, PairAt t b
  /-- No blank opens a string. -/
  quote : ∀ q, s.state = .string q → isBlank q = false

theorem tracks_start (t : Text) : Tracks t (.start t) .empty where
  nothing := fun _ p _ _ => Nat.zero_le p
  last_before := fun _ _ h => nomatch h
  open_at := fun _ h => nomatch h
  pair_at := fun _ h => nomatch h
  quote := fun _ h => nomatch h

variable {t r : Text} {s : Scanner} {o : Outline} {c : Char}

/-- An open bracket is not after the last significant character. -/
theorem Tracks.open_le (h : Tracks t s o) {p : Nat} {d : Char} (hlast : o.last = some (p, d))
    {b : Char × Nat} (hb : b ∈ o.openBrackets) : b.2 ≤ p := by
  obtain ⟨hat, hopener, hlt⟩ := h.open_at b hb
  have hsig := hat.isSignificantAt (isBlank_of_isOpener hopener) (ne_slash_of_isOpener hopener)
  refine Nat.le_of_not_lt ?_
  intro hgt
  have := (h.last_before p d hlast).gap _ hsig hgt
  omega

/-- A closing brace in code completes a pair with the only open bracket, if that is a brace. -/
theorem Tracks.pairAt_bracePair (h : Tracks t s o) (hf : s.Follows t) (hr : s.rest = '}' :: r)
    (hcode : s.state = .code) {opened : Nat} (hopen : o.openBrackets = [('{', opened)]) :
    PairAt t (o.bracePair opened ⟨s.position, '}', r.head?, s.state⟩) := by
  have hmem : ('{', opened) ∈ o.openBrackets := hopen ▸ List.mem_singleton.mpr rfl
  obtain ⟨hopened, -, hlt⟩ : CodeAt t opened '{' ∧ isOpener '{' = true ∧ opened < s.position :=
    h.open_at _ hmem
  obtain ⟨hp, hc, -⟩ := hf.getElem_of_rest hr
  have hclosed : CodeAt t s.position '}' := by
    refine ⟨by rw [List.getElem?_eq_getElem hp, hc], ?_, ?_⟩ <;> rw [hf.reading_eq]
    exact hcode
  have hsig := hopened.isSignificantAt (by decide) (by decide)
  cases hlast : o.last with
  | none =>
    -- the open brace itself was significant
    have := h.nothing hlast _ hsig (Nat.zero_le _)
    omega
  | some last =>
    obtain ⟨p, d⟩ := last
    have hbefore := h.last_before p d hlast
    have hle : opened ≤ p := h.open_le hlast hmem
    have hpair : o.bracePair opened ⟨s.position, '}', r.head?, s.state⟩ =
        ⟨opened, s.position, p, p != opened && d == ','⟩ := by
      simp only [bracePair, hlast, Nat.max_eq_left hle]
    rw [hpair]
    refine ⟨hopened, hclosed, hle, hbefore.lt, hbefore.significant, hbefore.gap,
      hbefore.settled (by rw [hcode]; rfl), ?_⟩
    intro hne d' hd'
    refine Bool.eq_false_iff.mpr fun hopener => hne ?_
    -- an opener there would be the innermost bracket, so the brace
    have hhead := hbefore.innermost d' hd' hopener
    rw [hopen] at hhead
    injection hhead with hhead
    exact (congrArg Prod.snd hhead).symm

/-- In code, a character that opens neither a comment nor a string nor a template changes nothing. -/
theorem move_code {e : Bool} {f : Option Char}
    (hopens : ¬ (c = '/' ∧ (f = some '/' ∨ f = some '*')))
    (hout : (LexicalState.code.move e c f).after.inString = false) :
    LexicalState.code.move e c f = ⟨.code, false⟩ := by
  have h1 : ¬ (c = '/' ∧ f = some '/') := fun h => hopens ⟨h.1, .inl h.2⟩
  have h2 : ¬ (c = '/' ∧ f = some '*') := fun h => hopens ⟨h.1, .inr h.2⟩
  simp only [LexicalState.move, if_neg h1, if_neg h2] at hout ⊢
  split at hout
  · cases hout
  · next hquote =>
    split at hout
    · cases hout
    · next htick => rw [if_neg hquote, if_neg htick]

/-- A string or template is left to code only, by its own quote. -/
theorem move_inString {state : LexicalState} {e : Bool} {f : Option Char}
    (hin : state.inString = true) (hout : (state.move e c f).after.inString = false) :
    state.move e c f = ⟨.code, false⟩ ∧ (state = .string c ∨ c = Text.backtick) := by
  cases state with
  | string q =>
    simp only [LexicalState.move] at hout ⊢
    split at hout
    · next h => rw [if_pos h]; exact ⟨rfl, .inl (by rw [h.1])⟩
    · cases hout
  | template d =>
    simp only [LexicalState.move] at hout ⊢
    split at hout
    · cases hout
    · next hopens =>
      rw [if_neg hopens]
      cases d with
      | zero =>
        dsimp only at hout ⊢
        split at hout
        · next h => rw [if_pos h]; exact ⟨rfl, .inr h.1⟩
        · cases hout
      | succ d =>
        dsimp only at hout
        split at hout <;> cases hout
  | _ => cases hin

/-- Unless it opens a string or template or stands inside one, a significant character is followed
by code. -/
theorem inCode_of_isSignificant (hf : s.Follows t) (hr : s.rest = c :: r)
    (hs : Visit.isSignificant ⟨s.position, c, r.head?, s.state⟩ = true)
    (hout : (s.state.move s.escaped c r.head?).after.inString = false) :
    (readingAt t (s.position + 1)).InCode := by
  have hmove : s.state.move s.escaped c r.head? = ⟨.code, false⟩ := by
    simp only [Visit.isSignificant, Bool.and_eq_true, Bool.not_eq_true', opensComment] at hs
    cases hst : s.state with
    | code =>
      rw [hst] at hs hout
      refine move_code ?_ hout
      simpa [LexicalState.isCode] using hs.2
    | string q => exact (move_inString rfl (hst ▸ hout)).1
    | template d => exact (move_inString rfl (hst ▸ hout)).1
    | lineComment => simp [hst, LexicalState.inComment] at hs
    | blockComment => simp [hst, LexicalState.inComment] at hs
  rw [hf.readingAt_succ hr, hmove]
  exact ⟨rfl, rfl⟩

/-- What a string is opened by is no blank, before a step and after it. -/
theorem move_quote {state : LexicalState} {e : Bool} {f : Option Char}
    (h : ∀ q, state = .string q → isBlank q = false) {q : Char}
    (hq : (state.move e c f).after = .string q) : isBlank q = false := by
  cases state with
  | code =>
    simp only [LexicalState.move] at hq
    repeat' split at hq
    all_goals cases hq
    next hc => rcases hc with rfl | rfl <;> decide
  | string k =>
    simp only [LexicalState.move] at hq
    split at hq <;> cases hq
    exact h _ rfl
  | template d =>
    simp only [LexicalState.move] at hq
    repeat' split at hq
    all_goals cases hq
  | lineComment =>
    simp only [LexicalState.move] at hq
    split at hq <;> cases hq
  | blockComment =>
    simp only [LexicalState.move] at hq
    split at hq <;> cases hq

theorem step_state (hr : s.rest = c :: r) :
    s.step.state = (s.state.move s.escaped c r.head?).after := by
  cases ht : (s.state.move s.escaped c r.head?).takesNext with
  | false => rw [Scanner.step_of_not_takesNext hr ht]
  | true =>
    obtain ⟨d, r', -, hstep⟩ := Scanner.step_of_takesNext hr ht
    rw [hstep]

/-- A visit that is not significant leaves the last significant one where it is. -/
theorem LastBefore.step {p : Nat} (h : LastBefore t s o p) (hf : s.Follows t)
    (hr : s.rest = c :: r) (hquote : ∀ q, s.state = .string q → isBlank q = false)
    (hs : Visit.isSignificant ⟨s.position, c, r.head?, s.state⟩ = false) :
    LastBefore t s.step o p := by
  refine ⟨h.significant, Nat.lt_trans h.lt (Scanner.position_lt_step hr),
    hf.gap_step hr h.gap (.inr hs), h.innermost, ?_⟩
  intro hout
  rw [step_state hr] at hout
  by_cases hin : s.state.inString = true
  · -- only a quote leads out of a string or template, and that is significant
    obtain ⟨-, hstate⟩ := move_inString hin hout
    have hblank : isBlank c = false := by
      rcases hstate with hstate | rfl
      · exact hquote c hstate
      · decide
    cases hst : s.state <;>
      simp_all [Visit.isSignificant, LexicalState.inString, LexicalState.inComment,
        LexicalState.isCode]
  · exact h.settled (by simpa using hin)

/-- A significant visit is the last one. -/
theorem lastBefore_of_isSignificant {o' : Outline} (hf : s.Follows t) (hr : s.rest = c :: r)
    (hs : Visit.isSignificant ⟨s.position, c, r.head?, s.state⟩ = true)
    (hinner : s.state = .code → isOpener c = true →
      o'.openBrackets.head? = some (c, s.position)) :
    LastBefore t s.step o' s.position := by
  refine ⟨(hf.isSignificantAt_eq hr).trans hs, Scanner.position_lt_step hr, ?_, ?_,
    ?_⟩
  · exact hf.gap_step hr (fun p _ hle => Nat.le_of_succ_le hle) (.inl (Nat.lt_succ_self _))
  · intro d hd hopen
    obtain ⟨hp, hc, -⟩ := hf.getElem_of_rest hr
    have hget := hd.get_eq
    rw [List.getElem?_eq_getElem hp, hc] at hget
    injection hget with hget
    subst hget
    have hcode := hd.inCode.state_eq
    rw [hf.reading_eq] at hcode
    exact hinner hcode hopen
  · intro hout
    exact inCode_of_isSignificant hf hr hs (step_state hr ▸ hout)

/-- **The step**: an outline that knows the text before a scanner, with one more visit added, knows
the text before the scanner's next position. -/
theorem Tracks.add (h : Tracks t s o) (hf : s.Follows t) (hr : s.rest = c :: r) :
    Tracks t s.step (o.add ⟨s.position, c, r.head?, s.state⟩) := by
  have hlt := Scanner.position_lt_step hr
  obtain ⟨hp, hc, -⟩ := hf.getElem_of_rest hr
  have hget : t[s.position]? = some c := by rw [List.getElem?_eq_getElem hp, hc]
  refine ⟨?_, ?_, ?_, ?_, ?_⟩
  · intro hnone
    cases hs : Visit.isSignificant ⟨s.position, c, r.head?, s.state⟩ with
    | false =>
      -- what is not significant makes the gap longer
      rw [add_of_not_isSignificant hs] at hnone
      exact hf.gap_step hr (h.nothing hnone) (.inr hs)
    | true =>
      rw [add_last_of_isSignificant hs] at hnone
      cases hnone
  · intro p d hlast
    cases hs : Visit.isSignificant ⟨s.position, c, r.head?, s.state⟩ with
    | false =>
      rw [add_of_not_isSignificant hs] at hlast ⊢
      exact (h.last_before p d hlast).step hf hr h.quote hs
    | true =>
      rw [add_last_of_isSignificant hs] at hlast
      cases hlast
      refine lastBefore_of_isSignificant hf hr hs ?_
      intro hcode hopener
      rw [add_openBrackets, if_pos ⟨hcode, hopener⟩]
      rfl
  · intro b hb
    rcases mem_add_openBrackets hb with hb | ⟨hcode, hopener, rfl⟩
    · obtain ⟨hat, hopener, hbefore⟩ := h.open_at b hb
      exact ⟨hat, hopener, Nat.lt_trans hbefore hlt⟩
    · refine ⟨⟨hget, ?_, ?_⟩, hopener, hlt⟩ <;> rw [hf.reading_eq]
      exact hcode
  · intro b hb
    rcases mem_add_braces hb with hb | ⟨hcode, opened, hopen, hclose, rfl⟩
    · exact h.pair_at b hb
    · -- the only new pair is the one that this brace closes
      obtain rfl : c = '}' := hclose
      exact h.pairAt_bracePair hf hr hcode hopen
  · intro q hq
    exact move_quote h.quote (step_state hr ▸ hq)

/-- The outline of a whole text knows all of it. -/
theorem tracks_ofText (t : Text) :
    ∃ s : Scanner, s.Follows t ∧ s.position = t.length ∧
      Tracks t s ((Scanner.start t).visits.foldl Outline.add .empty) :=
  Scanner.foldl_visits (fun _ _ _ _ hf hr h => Tracks.add h hf hr) (Scanner.start_follows t)
    (tracks_start t)

end Outline

/-! ## Layouts -/

/-- An empty argument list holds nothing significant. -/
theorem gap_of_isEmpty {base : Int} {t : Text}
    (h : (ArgumentLayout.ofText base t).isEmpty = true) : Gap t 0 t.length := by
  obtain ⟨s, -, hpos, htracks⟩ := Outline.tracks_ofText t
  unfold ArgumentLayout.ofText ArgumentLayout.ofOutline at h
  split at h
  · next hlast => exact hpos ▸ htracks.nothing hlast
  · cases h

theorem lastObject_of_isEmpty {base : Int} {t : Text}
    (h : (ArgumentLayout.ofText base t).isEmpty = true) :
    (ArgumentLayout.ofText base t).lastObject? = none := by
  unfold ArgumentLayout.ofText ArgumentLayout.ofOutline at h ⊢
  split at h
  · rfl
  · cases h

/-- The last object literal of an argument list is a pair of braces in its text. -/
theorem lastObject_at {base : Int} {t : Text} {o : ObjectLiteral}
    (h : (ArgumentLayout.ofText base t).lastObject? = some o) :
    ∃ b, PairAt t b ∧ o = b.toObject base := by
  obtain ⟨s, -, -, htracks⟩ := Outline.tracks_ofText t
  have hmem := List.mem_of_getLast? h
  unfold ArgumentLayout.ofText ArgumentLayout.ofOutline at hmem
  split at hmem
  · cases hmem
  · obtain ⟨b, hb, rfl⟩ := List.mem_map.mp hmem
    exact ⟨b, htracks.pair_at b (List.mem_reverse.mp (List.mem_filter.mp hb).1), rfl⟩

end SourceStamp
