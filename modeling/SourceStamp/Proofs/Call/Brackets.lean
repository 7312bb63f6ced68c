import SourceStamp.Proofs.Call.Layout

/-!
# Brackets along a text

The outline of an argument list pairs brackets of all kinds with each other. How many are open is a
matter of position alone, so it can be compared between texts that lie inside one another.

- `bracketDepth`: the number of brackets open at a place, counted from an earlier one.
- `Stray`: a bracket that closes none of a text.
- `Outline.Counts`: the invariant that an outline has as many brackets open as are counted.
- `Balanced.lastObject_depth`: one bracket is open where the last object literal closes.
- `exists_stray`: an inner argument list sees as many brackets as an outer one only after a stray.
-/

namespace SourceStamp

/-! ## Counting -/

/-- The bracket in code at an offset of a text. -/
def bracketAt (t : Text) (p : Nat) : Option Char :=
  t[p]?.filter fun c => (readingAt t p).state.isCode && !(readingAt t p).halfway &&
    (Outline.isOpener c || Outline.isCloser c)

/-- The number of open brackets after one more character. -/
def depthAfter (depth : Nat) : Option Char → Nat
  | none => depth
  | some c => if Outline.isOpener c then depth + 1 else depth - 1

theorem depthAfter_of_isOpener {c : Char} (h : Outline.isOpener c = true) (depth : Nat) :
    depthAfter depth (some c) = depth + 1 := if_pos h

theorem depthAfter_of_not_isOpener {c : Char} (h : ¬ Outline.isOpener c = true) (depth : Nat) :
    depthAfter depth (some c) = depth - 1 := if_neg h

/-- The number of brackets open `count` characters after an offset, when none is open there. -/
def bracketDepth (t : Text) (first : Nat) : Nat → Nat
  | 0 => 0
  | count + 1 => depthAfter (bracketDepth t first count) (bracketAt t (first + count))

/-- The bracket at an offset closes none of the text. -/
def Stray (t : Text) (p : Nat) : Prop :=
  (bracketAt t p).any Outline.isCloser = true ∧ bracketDepth t 0 p = 0

theorem isOpener_or_isCloser_of_bracketAt {t : Text} {p : Nat} {c : Char}
    (h : bracketAt t p = some c) : Outline.isOpener c = true ∨ Outline.isCloser c = true := by
  have := (Option.filter_eq_some_iff.mp h).2
  simp only [Bool.and_eq_true, Bool.or_eq_true] at this
  exact this.2

theorem bracketAt_of_codeAt {t : Text} {p : Nat} {c : Char} (h : CodeAt t p c)
    (hc : Outline.isOpener c = true ∨ Outline.isCloser c = true) : bracketAt t p = some c := by
  refine Option.filter_eq_some_iff.mpr ⟨h.get_eq, ?_⟩
  simp only [Bool.and_eq_true, Bool.or_eq_true, Bool.not_eq_true', LexicalState.isCode_iff]
  exact ⟨⟨h.inCode.state_eq, h.inCode.halfway_eq⟩, hc⟩

/-- Brackets open before a place stay open as long as none is closed there that was not opened
after it. -/
theorem bracketDepth_add {t : Text} {first count k : Nat}
    (h : ∀ j < k, (bracketAt t (first + count + j)).any Outline.isCloser = true →
      bracketDepth t (first + count) j ≠ 0) :
    bracketDepth t first (count + k) =
      bracketDepth t first count + bracketDepth t (first + count) k := by
  induction k with
  | zero => rfl
  | succ k ih =>
    have ih := ih fun j hj => h j (Nat.lt_succ_of_lt hj)
    rw [← Nat.add_assoc, bracketDepth, bracketDepth, ih, ← Nat.add_assoc]
    cases hbracket : bracketAt t (first + count + k) with
    | none => rfl
    | some c =>
      by_cases hopener : Outline.isOpener c = true
      · rw [depthAfter_of_isOpener hopener, depthAfter_of_isOpener hopener]
        rfl
      · have hcloser := (isOpener_or_isCloser_of_bracketAt hbracket).resolve_left hopener
        have hdepth := h k (Nat.lt_succ_self k) (by rw [hbracket]; exact hcloser)
        rw [depthAfter_of_not_isOpener hopener, depthAfter_of_not_isOpener hopener]
        omega

/-! ## Outlines -/

namespace Outline

theorem bracePair_closed (o : Outline) (opened : Nat) (v : Visit) :
    (o.bracePair opened v).closed = v.position := by
  unfold bracePair
  split <;> rfl

/-- The outline has as many brackets open as are counted up to the scanner, and one where each of
its pairs closes. -/
structure Counts (t : Text) (s : Scanner) (o : Outline) : Prop where
  length_eq : o.openBrackets.length = bracketDepth t 0 s.position
  closed_eq : ∀ b ∈ o.braces, bracketDepth t 0 b.closed = 1

variable {t r : Text} {s : Scanner} {o : Outline} {c : Char}

/-- What a scanner is about to visit is a bracket as it is in code. -/
theorem bracketAt_position (hf : s.Follows t) (hr : s.rest = c :: r) :
    bracketAt t s.position =
      if s.state = .code ∧ (isOpener c = true ∨ isCloser c = true) then some c else none := by
  obtain ⟨hp, hc, -⟩ := hf.getElem_of_rest hr
  rw [bracketAt, List.getElem?_eq_getElem hp, hc, hf.reading_eq, Option.filter_some]
  simp only [Bool.and_eq_true, Bool.or_eq_true, Bool.not_false, and_true, LexicalState.isCode_iff]

/-- No bracket is the second character of a delimiter. -/
theorem bracketDepth_step (hf : s.Follows t) (hr : s.rest = c :: r) :
    bracketDepth t 0 s.step.position =
      depthAfter (bracketDepth t 0 s.position) (bracketAt t s.position) := by
  have hsucc : bracketDepth t 0 (s.position + 1) =
      depthAfter (bracketDepth t 0 s.position) (bracketAt t s.position) := by
    rw [bracketDepth, Nat.zero_add]
  cases ht : (s.state.move s.escaped c r.head?).takesNext with
  | false => rw [Scanner.step_of_not_takesNext hr ht, hsucc]
  | true =>
    obtain ⟨d, r', -, hstep⟩ := Scanner.step_of_takesNext hr ht
    have hread := hf.readingAt_succ hr
    rw [ht] at hread
    have hnone : bracketAt t (s.position + 1) = none := by
      rw [bracketAt, hread]
      simp
    rw [hstep]
    show bracketDepth t 0 (s.position + 1 + 1) = _
    rw [bracketDepth, Nat.zero_add, hnone]
    exact hsucc

/-- The step: an outline that counts right up to a scanner does so up to its next position. -/
theorem Counts.add (h : Counts t s o) (hf : s.Follows t) (hr : s.rest = c :: r) :
    Counts t s.step (o.add ⟨s.position, c, r.head?, s.state⟩) := by
  constructor
  · rw [bracketDepth_step hf hr, bracketAt_position hf hr, add_openBrackets, ← h.length_eq]
    by_cases hopener : s.state = .code ∧ isOpener c = true
    · rw [if_pos hopener, if_pos ⟨hopener.1, .inl hopener.2⟩, depthAfter_of_isOpener hopener.2]
      rfl
    · rw [if_neg hopener]
      by_cases hcloser : s.state = .code ∧ isCloser c = true
      · have hopens : ¬ isOpener c = true := fun hc => hopener ⟨hcloser.1, hc⟩
        rw [if_pos hcloser, if_pos ⟨hcloser.1, .inr hcloser.2⟩, depthAfter_of_not_isOpener hopens,
          List.length_tail]
      · have hno : ¬ (s.state = .code ∧ (isOpener c = true ∨ isCloser c = true)) :=
          fun ⟨hcode, hc⟩ => hc.elim (fun hc => hopener ⟨hcode, hc⟩) fun hc => hcloser ⟨hcode, hc⟩
        rw [if_neg hcloser, if_neg hno, depthAfter]
  · intro b hb
    rcases mem_add_braces hb with hb | ⟨-, opened, hopen, -, rfl⟩
    · exact h.closed_eq b hb
    · -- the pair closes here, and its brace is the only open bracket
      rw [bracePair_closed]
      show bracketDepth t 0 s.position = 1
      rw [← h.length_eq, hopen]
      rfl

/-- The outline of a whole text counts right. -/
theorem counts_ofText (t : Text) :
    ∃ s : Scanner, Counts t s ((Scanner.start t).visits.foldl Outline.add .empty) := by
  obtain ⟨s, -, -, hcounts⟩ := Scanner.foldl_visits
    (fun s o c r hf hr h => Counts.add h hf hr) (Scanner.start_follows t)
    (show Counts t (.start t) .empty from ⟨rfl, fun _ h => nomatch h⟩)
  exact ⟨s, hcounts⟩

end Outline

/-! ## Argument lists -/

section Standing

variable {source t rest : Text} {base : Nat}

theorem StandsAt.bracketAt_add (h : StandsAt source base t rest) {p : Nat} (hp : p < t.length) :
    bracketAt source (base + p) = bracketAt t p := by
  have hagree := h.agree (Nat.le_of_lt hp)
  rw [bracketAt, bracketAt, h.getElem_add, List.getElem?_append_left hp, hagree.state_eq,
    hagree.halfway_eq]

/-- Brackets are counted in a text as they are from its place in the source text on. -/
theorem StandsAt.bracketDepth_eq (h : StandsAt source base t rest) {p : Nat} (hp : p ≤ t.length) :
    bracketDepth source base p = bracketDepth t 0 p := by
  induction p with
  | zero => rfl
  | succ p ih =>
    rw [bracketDepth, bracketDepth, ih (Nat.le_of_lt hp), h.bracketAt_add hp, Nat.zero_add]

end Standing

theorem lastObject_depth {base : Int} {t : Text} {o : ObjectLiteral}
    (h : (ArgumentLayout.ofText base t).lastObject? = some o) :
    ∃ k < t.length, o.closeBrace = base + k ∧ bracketDepth t 0 k = 1 := by
  obtain ⟨s, hcounts⟩ := Outline.counts_ofText t
  obtain ⟨s', -, -, htracks⟩ := Outline.tracks_ofText t
  have hmem := List.mem_of_getLast? h
  unfold ArgumentLayout.ofText ArgumentLayout.ofOutline at hmem
  split at hmem
  · cases hmem
  · obtain ⟨b, hb, rfl⟩ := List.mem_map.mp hmem
    have hb := List.mem_reverse.mp (List.mem_filter.mp hb).1
    exact ⟨b.closed, (htracks.pair_at b hb).closed_at.lt, rfl, hcounts.closed_eq b hb⟩

/-- One bracket is open where the last object literal of an argument list closes. -/
theorem Balanced.lastObject_depth {source : Text} {opened closed : Nat}
    (h : Balanced source opened closed) {o : ObjectLiteral}
    (ho : (ArgumentList.find source opened).layout.lastObject? = some o) :
    ∃ k < (ArgumentList.find source opened).text.length,
      o.closeBrace = ((opened + 1 + k : Nat) : Int) ∧
        bracketDepth source (opened + 1) k = 1 := by
  obtain ⟨k, hk, hclose, hdepth⟩ := SourceStamp.lastObject_depth ho
  refine ⟨k, hk, ?_, (h.standsAt.bracketDepth_eq (Nat.le_of_lt hk)).trans hdepth⟩
  rw [hclose, ArgumentList.find_eq_some h]
  push_cast
  rfl

/-- **Strays**: where one bracket is open for an argument list and for another one inside it, a stray
bracket of the inner list stands before. -/
theorem exists_stray {source : Text} {opened opened' closed' : Nat}
    (h' : Balanced source opened' closed') (hlt : opened < opened') {k k' : Nat}
    (hk : k' < (ArgumentList.find source opened').text.length)
    (heq : opened + 1 + k = opened' + 1 + k') (hdepth : bracketDepth source (opened + 1) k = 1)
    (hdepth' : bracketDepth source (opened' + 1) k' = 1) :
    ∃ j, Stray (ArgumentList.find source opened').text j := by
  refine Classical.byContradiction ?_
  intro hno
  obtain ⟨m, rfl⟩ := Nat.exists_eq_add_of_lt hlt
  have hplace : opened + 1 + (m + 1) = opened + m + 1 + 1 := by omega
  have hopen : bracketAt source (opened + 1 + m) = some '(' := by
    rw [Nat.add_right_comm]
    exact bracketAt_of_codeAt h'.opened_at (.inl rfl)
  -- the parenthesis of the inner list is open for the outer one, and so is its own bracket
  have hinner :
      bracketDepth source (opened + 1) (m + 1) = bracketDepth source (opened + 1) m + 1 := by
    rw [bracketDepth, hopen]
    rfl
  have hadd := @bracketDepth_add source (opened + 1) (m + 1) k' fun j hj hcloser hzero => by
    rw [hplace] at hcloser hzero
    rw [h'.standsAt.bracketAt_add (by omega)] at hcloser
    rw [h'.standsAt.bracketDepth_eq (by omega)] at hzero
    exact hno ⟨j, hcloser, hzero⟩
  rw [hplace, hdepth', hinner] at hadd
  obtain rfl : k = m + 1 + k' := by omega
  omega

end SourceStamp
