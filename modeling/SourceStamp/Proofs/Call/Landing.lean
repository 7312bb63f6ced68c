import SourceStamp.Proofs.Call.Layout

/-!
# Where stamps land

The stamp of a call goes to one of four places between its parentheses (`Landing`): the whole of an
argument list without arguments, the end of a list, the whole of an empty object literal, or the end
of what stands in one that is not empty.

Each landing has a *target*, the bracket that closes what the stamp is put into. Landings with
different targets stay apart (`Landing.position_ne`, `Landing.stop_le`), and those with the same
target in different calls are the same (`Landing.eq_of_target_eq`).
-/

namespace SourceStamp

/-- Where the stamp of a call between two parentheses goes: the first replaced offset, the one after
the last, and the target. -/
inductive Landing (source : Text) (opened closed : Nat) : Nat → Nat → Nat → Prop where
  /-- The whole list, which holds nothing but blanks and comments. -/
  | whole (gap : Gap source (opened + 1) closed) :
    Landing source opened closed (opened + 1) closed closed
  /-- The end of the list. -/
  | atEnd : Landing source opened closed closed closed closed
  /-- An object literal that holds nothing but blanks and comments. -/
  | onObject {b : BracePair} (pair : PairAt source b) (opened_lt : opened < b.opened)
    (closed_lt : b.closed < closed) (empty : b.lastInside = b.opened) :
    Landing source opened closed b.opened (b.closed + 1) b.closed
  /-- The end of what stands in an object literal. -/
  | inObject {b : BracePair} (pair : PairAt source b) (opened_lt : opened < b.opened)
    (closed_lt : b.closed < closed) (filled : b.lastInside ≠ b.opened) :
    Landing source opened closed (b.lastInside + 1) (b.lastInside + 1) b.closed

/-! ## Pairs of braces that close together -/

namespace PairAt

variable {source : Text} {b b' : BracePair}

theorem lastInside_le (h : PairAt source b) (h' : PairAt source b') (heq : b.closed = b'.closed) :
    b'.lastInside ≤ b.lastInside := by
  refine Nat.le_of_not_lt ?_
  intro hlt
  have hle := h.gap _ h'.significant hlt
  have hlt' := h'.lastInside_lt
  omega

theorem lastInside_eq (h : PairAt source b) (h' : PairAt source b') (heq : b.closed = b'.closed) :
    b.lastInside = b'.lastInside :=
  Nat.le_antisymm (h'.lastInside_le h heq.symm) (h.lastInside_le h' heq)

/-- An opening brace before a gap is the last significant character of no other pair. -/
theorem empty_of_empty (h : PairAt source b) (h' : PairAt source b') (heq : b.closed = b'.closed)
    (hempty : b.lastInside = b.opened) : b'.lastInside = b'.opened := by
  refine Classical.byContradiction ?_
  intro hne
  have hat : CodeAt source b'.lastInside '{' := by
    rw [← h.lastInside_eq h' heq, hempty]
    exact h.opened_at
  exact absurd (h'.not_opener hne _ hat) (by decide)

end PairAt

/-! ## Landings -/

namespace Landing

variable {source : Text} {opened closed p q t : Nat}

theorem target_at (hb : Balanced source opened closed) (h : Landing source opened closed p q t) :
    CodeAt source t ')' ∧ t = closed ∨ CodeAt source t '}' := by
  cases h with
  | whole gap => exact .inl ⟨hb.closed_spec.2, rfl⟩
  | atEnd => exact .inl ⟨hb.closed_spec.2, rfl⟩
  | onObject pair => exact .inr pair.closed_at
  | inObject pair => exact .inr pair.closed_at

theorem target_significant (hb : Balanced source opened closed)
    (h : Landing source opened closed p q t) : isSignificantAt source t = true := by
  rcases h.target_at hb with ⟨hat, -⟩ | hat
  · exact hat.isSignificantAt (by decide) (by decide)
  · exact hat.isSignificantAt (by decide) (by decide)

/-- A target is no opening brace. -/
theorem target_ne_of_brace (hb : Balanced source opened closed)
    (h : Landing source opened closed p q t) {k : Nat} (hk : CodeAt source k '{') : t ≠ k := by
  rintro rfl
  rcases h.target_at hb with ⟨hat, -⟩ | hat
  · exact absurd (hat.unique hk) (by decide)
  · exact absurd (hat.unique hk) (by decide)

/-- A landing lies between the parentheses of its call, up to its target. -/
theorem bounds (hb : Balanced source opened closed) (h : Landing source opened closed p q t) :
    opened < p ∧ p ≤ q ∧ q ≤ closed ∧ p ≤ t := by
  have hlt := hb.closed_spec.1
  cases h with
  | whole gap => omega
  | atEnd => omega
  | onObject pair opened_lt closed_lt empty =>
    have := pair.opened_le
    have := pair.lastInside_lt
    omega
  | inObject pair opened_lt closed_lt filled =>
    have := pair.opened_le
    have := pair.lastInside_lt
    omega

/-- In an object literal the stamp replaces either all of it or nothing. -/
theorem stop_of_brace (hb : Balanced source opened closed) (h : Landing source opened closed p q t)
    (hat : CodeAt source t '}') : q = t + 1 ∨ q = p := by
  cases h with
  | whole | atEnd => exact absurd (hb.closed_spec.2.unique hat) (by decide)
  | onObject => exact .inl rfl
  | inObject => exact .inr rfl

/-- Both ends of what is replaced are in code. -/
theorem inCode (hb : Balanced source opened closed) (h : Landing source opened closed p q t) :
    (readingAt source p).InCode ∧ (readingAt source q).InCode := by
  have hclosed := hb.closed_spec.2.inCode
  cases h with
  | whole gap => exact ⟨hb.inCode_succ, hclosed⟩
  | atEnd => exact ⟨hclosed, hclosed⟩
  | onObject pair => exact ⟨pair.opened_at.inCode, pair.closed_at.inCode_succ (by decide)⟩
  | inObject pair => exact ⟨pair.inCode_succ, pair.inCode_succ⟩

/-! Landings stay apart. -/

/-- From a landing to its target nothing significant stands, the opening brace apart where an object
literal is replaced. -/
theorem exists_gap (hb : Balanced source opened closed) (h : Landing source opened closed p q t) :
    ∃ first, Gap source first t ∧ first ≤ t ∧
      (first = p ∨ first = p + 1 ∧ CodeAt source p '{') := by
  have hlt := hb.closed_spec.1
  cases h with
  | whole gap => exact ⟨opened + 1, gap, hlt, .inl rfl⟩
  | atEnd => exact ⟨closed, fun k _ hle => hle, Nat.le_refl _, .inl rfl⟩
  | onObject pair _ _ empty =>
    refine ⟨_, pair.gap, pair.lastInside_lt, .inr ⟨by rw [empty], pair.opened_at⟩⟩
  | inObject pair => exact ⟨_, pair.gap, pair.lastInside_lt, .inl rfl⟩

/-- A landing begins at or right after a significant character. -/
theorem exists_significant (hb : Balanced source opened closed)
    (h : Landing source opened closed p q t) :
    isSignificantAt source p = true ∧ (p = t ∨ CodeAt source p '{') ∨
      ∃ k, p = k + 1 ∧ isSignificantAt source k = true ∧ ¬ CodeAt source k '{' := by
  cases h with
  | whole gap =>
    refine .inr ⟨opened, rfl, hb.opened_at.isSignificantAt (by decide) (by decide), ?_⟩
    intro hat
    exact absurd (hb.opened_at.unique hat) (by decide)
  | atEnd => exact .inl ⟨hb.closed_spec.2.isSignificantAt (by decide) (by decide), .inl rfl⟩
  | onObject pair =>
    exact .inl ⟨pair.opened_at.isSignificantAt (by decide) (by decide), .inr pair.opened_at⟩
  | @inObject b pair _ _ filled =>
    refine .inr ⟨b.lastInside, rfl, pair.significant, ?_⟩
    intro hat
    exact absurd (pair.not_opener filled _ hat) (by decide)

variable {opened' closed' p' q' t' : Nat}

/-- Landings at the same place have the same target. -/
theorem position_ne (hb : Balanced source opened closed) (h : Landing source opened closed p q t)
    (hb' : Balanced source opened' closed') (h' : Landing source opened' closed' p' q' t')
    (hne : t ≠ t') : p ≠ p' := by
  rintro rfl
  obtain ⟨first, hgap, hle, hfirst⟩ := h.exists_gap hb
  obtain ⟨first', hgap', hle', hfirst'⟩ := h'.exists_gap hb'
  -- an opening brace at the place would be significant, so both gaps start at the same offset
  have hbrace : CodeAt source p '{' → first ≠ p ∧ first' ≠ p := by
    intro hat
    have hsig := hat.isSignificantAt (by decide) (by decide)
    constructor
    · rintro rfl
      exact h.target_ne_of_brace hb hat (Nat.le_antisymm (hgap _ hsig (Nat.le_refl _)) hle)
    · rintro rfl
      exact h'.target_ne_of_brace hb' hat (Nat.le_antisymm (hgap' _ hsig (Nat.le_refl _)) hle')
  have heq : first = first' := by
    rcases hfirst with hfirst | ⟨hfirst, hat⟩
    · rcases hfirst' with hfirst' | ⟨-, hat⟩
      · rw [hfirst, hfirst']
      · exact absurd hfirst (hbrace hat).1
    · rcases hfirst' with hfirst' | ⟨hfirst', -⟩
      · exact absurd hfirst' (hbrace hat).2
      · rw [hfirst, hfirst']
  subst heq
  have h1 := hgap t' (h'.target_significant hb') hle'
  have h2 := hgap' t (h.target_significant hb) hle
  exact hne (Nat.le_antisymm h1 h2)

/-- What is replaced at one landing ends before the next one. -/
theorem stop_le (h : Landing source opened closed p q t)
    (hb' : Balanced source opened' closed') (h' : Landing source opened' closed' p' q' t')
    (hne : t ≠ t') (hlt : p < p') : q ≤ p' := by
  cases h with
  | atEnd => exact Nat.le_of_lt hlt
  | inObject => exact Nat.le_of_lt hlt
  | whole gap =>
    rcases h'.exists_significant hb' with ⟨hsig, -⟩ | ⟨k, rfl, hsig, -⟩
    · exact gap p' hsig (Nat.le_of_lt hlt)
    · exact Nat.le_succ_of_le (gap k hsig (Nat.le_of_lt_succ hlt))
  | @onObject b pair _ _ empty =>
    have hgap : Gap source (b.opened + 1) b.closed := empty ▸ pair.gap
    rcases h'.exists_significant hb' with ⟨hsig, hp⟩ | ⟨k, rfl, hsig, hk⟩
    · refine Nat.lt_of_le_of_ne (hgap p' hsig hlt) ?_
      rcases hp with rfl | hat
      · exact hne
      · rintro rfl
        exact absurd (hat.unique pair.closed_at) (by decide)
    · have hlt' : b.opened < k := by
        refine Nat.lt_of_le_of_ne (Nat.le_of_lt_succ hlt) ?_
        rintro rfl
        exact hk pair.opened_at
      exact Nat.succ_le_succ (hgap k hsig hlt')

/-- Two calls whose stamps have the same target put them into the same object literal, at the same
place. -/
theorem eq_of_target_eq (hb : Balanced source opened closed)
    (h : Landing source opened closed p q t) (hb' : Balanced source opened' closed')
    (h' : Landing source opened' closed' p' q' t') (hne : opened ≠ opened') (heq : t = t') :
    p = p' ∧ q = q' := by
  have hclosed : closed ≠ closed' := by
    rintro rfl
    exact hne (hb.unique_close hb')
  have hparen := hb.closed_spec.2
  have hparen' := hb'.closed_spec.2
  -- a parenthesis closes one call only, and no brace is a parenthesis
  cases h with
  | whole | atEnd =>
    cases h' with
    | whole | atEnd => exact absurd heq hclosed
    | onObject pair | inObject pair =>
      exact absurd (hparen.unique (heq ▸ pair.closed_at)) (by decide)
  | onObject pair _ _ empty =>
    cases h' with
    | whole | atEnd => exact absurd (hparen'.unique (heq ▸ pair.closed_at)) (by decide)
    | onObject pair' _ _ empty' =>
      exact ⟨by rw [← empty, ← empty', pair.lastInside_eq pair' heq], congrArg (· + 1) heq⟩
    | inObject pair' _ _ filled' => exact absurd (pair.empty_of_empty pair' heq empty) filled'
  | inObject pair _ _ filled =>
    cases h' with
    | whole | atEnd => exact absurd (hparen'.unique (heq ▸ pair.closed_at)) (by decide)
    | onObject pair' _ _ empty' =>
      exact absurd (pair'.empty_of_empty pair heq.symm empty') filled
    | inObject pair' _ _ _ =>
      have := congrArg (· + 1) (pair.lastInside_eq pair' heq)
      exact ⟨this, this⟩

end Landing

end SourceStamp
