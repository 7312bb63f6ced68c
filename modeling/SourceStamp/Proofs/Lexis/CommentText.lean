import SourceStamp.Proofs.Lexis.Classification

/-!
# The text of comments

- `isCommentText`: whether the character at an offset stands inside a comment, delimiters excluded.
- `blankComments`: a source text with blanks in place of the text of its comments. Line feeds stay,
  so that its lines are those of the source text.
- `agree_blankComments`: the lexical structure stays as well.
- `exists_comment_start`, `exists_comment_end`: what stands at both ends of a comment.
-/

namespace SourceStamp

/-- Whether the character at an offset stands in a comment and belongs to neither of its
delimiters. -/
def isCommentText (source : Text) (i : Nat) : Bool :=
  !(readingAt source i).halfway && (readingAt source i).state.inComment &&
    (readingAt source (i + 1)).state.inComment

/-- The source text with its comments left blank. -/
def blankComments (source : Text) : Text :=
  source.mapIdx fun i c => if isCommentText source i ∧ c ≠ '\n' then ' ' else c

theorem length_blankComments (source : Text) : (blankComments source).length = source.length :=
  List.length_mapIdx

variable {source : Text} {i : Nat}

theorem isCommentText_iff :
    isCommentText source i = true ↔ (readingAt source i).halfway = false ∧
      (readingAt source i).state.inComment = true ∧
        (readingAt source (i + 1)).state.inComment = true := by
  simp [isCommentText, and_assoc]

theorem getElem?_blankComments (source : Text) (i : Nat) :
    (blankComments source)[i]? =
      source[i]?.map fun c => if isCommentText source i ∧ c ≠ '\n' then ' ' else c :=
  List.getElem?_mapIdx

/-- Outside comments nothing is blanked. -/
theorem getElem?_blankComments_of_not (h : isCommentText source i = false) :
    (blankComments source)[i]? = source[i]? := by
  rw [getElem?_blankComments]
  cases source[i]? with
  | none => rfl
  | some c => simp [h]

theorem getElem?_blankComments_of_isCommentText (h : isCommentText source i = true) :
    (blankComments source)[i]? = source[i]?.map fun c => if c = '\n' then c else ' ' := by
  rw [getElem?_blankComments]
  cases source[i]? with
  | none => rfl
  | some c => by_cases hc : c = '\n' <;> simp [h, hc]

/-! ## The readings of a blanked text -/

namespace Reading

/-- Whether the next character is text of a comment, with a given character after it. -/
def readsComment (r : Reading) (c : Char) (following : Option Char) : Bool :=
  !r.halfway && r.state.inComment && (r.next c following).state.inComment

/-- A character of a comment that does not end it changes nothing. -/
theorem move_inComment {s : LexicalState} {e : Bool} {c : Char} {f : Option Char}
    (h : s.inComment = true) (h' : (s.move e c f).after.inComment = true) :
    s.move e c f = ⟨s, false⟩ := by
  cases s with
  | code | string | template => cases h
  | lineComment =>
    simp only [LexicalState.move] at h' ⊢
    split at h'
    · cases h'
    · next hc => rw [if_neg hc]
  | blockComment =>
    simp only [LexicalState.move] at h' ⊢
    split at h'
    · cases h'
    · next hc => rw [if_neg hc]

theorem move_blank_inComment {s : LexicalState} (h : s.inComment = true) (e : Bool)
    (f : Option Char) : s.move e ' ' f = ⟨s, false⟩ := by
  cases s with
  | code | string | template => cases h
  | lineComment => rfl
  | blockComment => simp [LexicalState.move]

/-- A blank is read in a comment like the text that it replaces. -/
theorem agree_next_blank {r : Reading} {c : Char} {f : Option Char}
    (h : r.readsComment c f = true) (f' : Option Char) : (r.next ' ' f').Agree (r.next c f) := by
  simp only [readsComment, Bool.and_eq_true, Bool.not_eq_true'] at h
  obtain ⟨⟨hhalf, hcomment⟩, hnext⟩ := h
  rw [next_of_not_halfway hhalf] at hnext
  rw [next_of_not_halfway hhalf, next_of_not_halfway hhalf, move_inComment hcomment hnext,
    move_blank_inComment hcomment]
  refine ⟨rfl, rfl, ?_⟩
  intro hl
  -- nothing in a comment looks back
  cases hs : r.state <;> simp_all [looksBack, LexicalState.inString, LexicalState.inComment]

/-- Before the text of a comment, the next character but one does not matter, unless the next one
is itself such text and no line feed. -/
theorem next_eq_of_comment_after {r : Reading} {c : Char} {f : Option Char}
    (hc : r.readsComment c f = true → c = '\n') (hhalf : (r.next c f).halfway = false)
    (hafter : (r.next c f).state.inComment = true) (f' : Option Char) :
    r.next c f' = r.next c f := by
  by_cases hh : r.halfway = true
  · rw [next_of_halfway hh, next_of_halfway hh]
  · have hh : r.halfway = false := by simpa using hh
    have hread : r.readsComment c f = r.state.inComment := by simp [readsComment, hh, hafter]
    rw [hread] at hc
    rw [next_of_not_halfway hh] at hhalf hafter
    rw [next_of_not_halfway hh, next_of_not_halfway hh]
    cases hs : r.state with
    | code =>
      -- a comment opener would have to be completed first
      rw [hs] at hhalf hafter
      simp only [LexicalState.move] at hhalf hafter
      repeat' split at hafter
      all_goals simp_all [LexicalState.inComment]
    | string => rfl
    | template d =>
      rw [hs] at hafter
      simp only [LexicalState.move] at hafter
      repeat' split at hafter
      all_goals cases hafter
    | lineComment => rfl
    | blockComment =>
      obtain rfl := hc (by rw [hs]; rfl)
      rfl

end Reading

theorem isCommentText_eq (h : i < source.length) :
    isCommentText source i = (readingAt source i).readsComment source[i] source[i + 1]? := by
  rw [isCommentText, readingAt_succ h, Reading.readsComment]

/-- **Blanking comments keeps the lexical structure** at every offset. -/
theorem agree_blankComments (source : Text) (i : Nat) :
    (readingAt (blankComments source) i).Agree (readingAt source i) := by
  have hlen := length_blankComments source
  induction i with
  | zero => exact Reading.Agree.refl _
  | succ i ih =>
    rcases Nat.lt_or_ge i source.length with hlt | hge
    · have hlt' : i < (blankComments source).length := hlen ▸ hlt
      rw [readingAt_succ hlt', readingAt_succ hlt, ih.next_eq]
      have hget : (blankComments source)[i] =
          if isCommentText source i ∧ source[i] ≠ '\n' then ' ' else source[i] := by
        have := getElem?_blankComments source i
        rw [List.getElem?_eq_getElem hlt', List.getElem?_eq_getElem hlt] at this
        exact Option.some.inj this
      rw [hget]
      by_cases hblank : isCommentText source i = true ∧ source[i] ≠ '\n'
      · rw [if_pos hblank]
        exact Reading.agree_next_blank (isCommentText_eq hlt ▸ hblank.1) _
      · rw [if_neg hblank]
        cases hnext : isCommentText source (i + 1) with
        | false =>
          rw [getElem?_blankComments_of_not hnext]
          exact Reading.Agree.refl _
        | true =>
          -- what follows is blanked, which matters to the first character of an opener only
          obtain ⟨hhalf, hafter, -⟩ := isCommentText_iff.mp hnext
          rw [readingAt_succ hlt] at hhalf hafter
          rw [Reading.next_eq_of_comment_after (fun hread => ?_) hhalf hafter]
          · exact Reading.Agree.refl _
          · refine Classical.byContradiction fun hne => hblank ⟨?_, hne⟩
            rw [isCommentText_eq hlt]
            exact hread
    · rw [readingAt_of_length_le (Nat.le_succ_of_le hge),
        readingAt_of_length_le (hlen ▸ Nat.le_succ_of_le hge), ← readingAt_of_length_le hge,
        ← readingAt_of_length_le (hlen ▸ hge)]
      exact ih

theorem classify_blankComments (source : Text) (i : Nat) :
    classify (blankComments source) i = classify source i := by
  rw [classify_eq, classify_eq, (agree_blankComments source i).state_eq]

/-! ## The ends of comments -/

/-- Only a slash leads into a comment. -/
theorem not_inComment_succ (h : (readingAt source i).state.inComment = false)
    (hc : source[i]? ≠ some '/') : (readingAt source (i + 1)).state.inComment = false := by
  rcases Nat.lt_or_ge i source.length with hlt | hge
  · rw [readingAt_succ hlt]
    rw [List.getElem?_eq_getElem hlt] at hc
    have hslash : source[i] ≠ '/' := fun heq => hc (congrArg some heq)
    by_cases hh : (readingAt source i).halfway = true
    · rw [Reading.next_of_halfway hh]
      exact h
    · rw [Reading.next_of_not_halfway (by simpa using hh)]
      refine Bool.eq_false_iff.mpr ?_
      intro hafter
      cases hs : (readingAt source i).state with
      | lineComment | blockComment => rw [hs] at h; cases h
      | code =>
        rw [hs] at hafter
        simp only [LexicalState.move, hslash, false_and, if_false] at hafter
        repeat' split at hafter
        all_goals cases hafter
      | string q =>
        rw [hs] at hafter
        simp only [LexicalState.move] at hafter
        split at hafter <;> cases hafter
      | template d =>
        rw [hs] at hafter
        simp only [LexicalState.move] at hafter
        repeat' split at hafter
        all_goals cases hafter
  · rw [readingAt_of_length_le (Nat.le_succ_of_le hge), ← readingAt_of_length_le hge]
    exact h

/-- A stretch of text without slashes that starts outside comments stays outside. -/
theorem not_inComment_add (h : (readingAt source i).state.inComment = false) (k : Nat)
    (hc : ∀ x, i ≤ x → x < i + k → source[x]? ≠ some '/') :
    (readingAt source (i + k)).state.inComment = false := by
  induction k with
  | zero => exact h
  | succ k ih =>
    exact not_inComment_succ (ih fun x h1 h2 => hc x h1 (Nat.lt_succ_of_lt h2))
      (hc (i + k) (Nat.le_add_right i k) (Nat.lt_succ_self _))

theorem not_isCommentText_of_not_inComment (h : (readingAt source i).state.inComment = false) :
    isCommentText source i = false := by
  simp [isCommentText, h]

/-- A step leaves a comment of one line at its line feed and one of the other kind before the slash
at its end. -/
theorem move_leaves_comment {s : LexicalState} {e : Bool} {c : Char} {f : Option Char}
    (h : s.inComment = true) (h' : (s.move e c f).after.inComment = false) :
    s = .lineComment ∧ c = '\n' ∨ f = some '/' ∧ (s.move e c f).takesNext = true := by
  cases s with
  | code | string | template => cases h
  | lineComment =>
    simp only [LexicalState.move] at h'
    split at h'
    · next hc => exact .inl ⟨rfl, hc⟩
    · cases h'
  | blockComment =>
    simp only [LexicalState.move] at h' ⊢
    split at h'
    · next hc => rw [if_pos hc]; exact .inr ⟨hc.2, rfl⟩
    · cases h'

/-- A comment goes on after any character but a line feed and a star. -/
theorem inComment_succ (h : (readingAt source i).state.inComment = true)
    (hfeed : source[i]? ≠ some '\n') (hstar : source[i]? ≠ some '*') :
    (readingAt source (i + 1)).state.inComment = true := by
  rcases Nat.lt_or_ge i source.length with hlt | hge
  · rw [List.getElem?_eq_getElem hlt, Ne, Option.some_inj] at hfeed hstar
    rw [readingAt_succ hlt]
    by_cases hh : (readingAt source i).halfway = true
    · rw [Reading.next_of_halfway hh]
      exact h
    · rw [Reading.next_of_not_halfway (by simpa using hh)]
      cases hs : (readingAt source i).state with
      | code | string | template => rw [hs] at h; cases h
      | lineComment => simp [LexicalState.move, hfeed, LexicalState.inComment]
      | blockComment => simp [LexicalState.move, hstar, LexicalState.inComment]
  · rw [readingAt_of_length_le (Nat.le_succ_of_le hge), ← readingAt_of_length_le hge]
    exact h

theorem inComment_add (h : (readingAt source i).state.inComment = true) (k : Nat)
    (hc : ∀ x, i ≤ x → x < i + k → source[x]? ≠ some '\n' ∧ source[x]? ≠ some '*') :
    (readingAt source (i + k)).state.inComment = true := by
  induction k with
  | zero => exact h
  | succ k ih =>
    obtain ⟨hfeed, hstar⟩ := hc (i + k) (Nat.le_add_right i k) (Nat.lt_succ_self _)
    exact inComment_succ (ih fun x h1 h2 => hc x h1 (Nat.lt_succ_of_lt h2)) hfeed hstar

/-- Between a place in a comment and one in code stands a slash, or the line feed that ends a
comment of one line. -/
theorem exists_comment_end {p : Nat} (hp : (readingAt source p).InCode) (hle : i ≤ p)
    (h : (readingAt source i).state.inComment = true) :
    ∃ m, i ≤ m ∧ m < p ∧ (source[m]? = some '/' ∨
      source[m]? = some '\n' ∧ (readingAt source m).state = .lineComment ∧
        (readingAt source m).halfway = false) := by
  obtain ⟨k, rfl⟩ := Nat.exists_eq_add_of_le hle
  induction k generalizing i with
  | zero =>
    rw [Nat.add_zero] at hp
    rw [hp.state_eq] at h
    cases h
  | succ k ih =>
    cases hnext : (readingAt source (i + 1)).state.inComment with
    | true =>
      rw [Nat.add_comm k 1, ← Nat.add_assoc] at hp
      obtain ⟨m, h1, h2, hm⟩ := ih hnext hp (Nat.le_add_right _ _)
      exact ⟨m, by omega, by omega, hm⟩
    | false =>
      -- the comment ends here
      have hlt : i < source.length := by
        refine Nat.lt_of_not_le ?_
        intro hge
        rw [readingAt_of_length_le (Nat.le_succ_of_le hge), ← readingAt_of_length_le hge,
          h] at hnext
        cases hnext
      have hread := readingAt_succ hlt
      by_cases hh : (readingAt source i).halfway = true
      · rw [hread, Reading.next_of_halfway hh, h] at hnext
        cases hnext
      · have hh : (readingAt source i).halfway = false := by simpa using hh
        rw [Reading.next_of_not_halfway hh] at hread
        rw [hread] at hnext
        rcases move_leaves_comment h hnext with ⟨hs, hc⟩ | ⟨hslash, ht⟩
        · refine ⟨i, Nat.le_refl _, by omega, .inr ⟨?_, hs, hh⟩⟩
          rw [List.getElem?_eq_getElem hlt, hc]
        · -- the slash of the closing delimiter is not in code either
          have hk : k ≠ 0 := by
            rintro rfl
            have hhalf := hp.halfway_eq
            rw [hread, ht] at hhalf
            cases hhalf
          exact ⟨i + 1, by omega, by omega, .inl hslash⟩

/-- What a step makes of a comment of one line: it was in one already, or it has read a slash before
another one. -/
theorem move_after_lineComment {s : LexicalState} {e : Bool} {c : Char} {f : Option Char}
    (h : (s.move e c f).after = .lineComment) :
    s = .lineComment ∧ (s.move e c f).takesNext = false ∨
      f = some '/' ∧ (s.move e c f).takesNext = true := by
  cases s with
  | code =>
    simp only [LexicalState.move] at h ⊢
    split at h
    · next hc => rw [if_pos hc]; exact .inr ⟨hc.2, rfl⟩
    · repeat' split at h
      all_goals cases h
  | string q =>
    simp only [LexicalState.move] at h
    split at h <;> cases h
  | template d =>
    simp only [LexicalState.move] at h
    repeat' split at h
    all_goals cases h
  | lineComment =>
    simp only [LexicalState.move] at h ⊢
    split at h
    · cases h
    · next hc => rw [if_neg hc]; exact .inl ⟨trivial, rfl⟩
  | blockComment =>
    simp only [LexicalState.move] at h
    split at h <;> cases h

theorem getElem?_of_halfway {m : Nat} (hm : m ≤ source.length)
    (h : (readingAt source m).state = .lineComment) (hh : (readingAt source m).halfway = true) :
    source[m]? = some '/' := by
  cases m with
  | zero => cases hh
  | succ m =>
    rw [readingAt_succ hm] at h hh
    by_cases hhalf : (readingAt source m).halfway = true
    · rw [Reading.next_of_halfway hhalf] at hh
      cases hh
    · rw [Reading.next_of_not_halfway (by simpa using hhalf)] at h hh
      rcases move_after_lineComment h with ⟨-, ht⟩ | ⟨hf, -⟩
      · exact absurd (ht.symm.trans hh) Bool.false_ne_true
      · exact hf

/-- A comment of one line starts with slashes, and all between them and a place in it is text of
the comment. -/
theorem exists_comment_start {m : Nat} (hm : m ≤ source.length)
    (h : (readingAt source m).state = .lineComment) (hh : (readingAt source m).halfway = false) :
    ∃ a, a < m ∧ source[a]? = some '/' ∧ isCommentText source a = false ∧
      ∀ x, a < x → x < m → isCommentText source x = true := by
  induction m with
  | zero => cases h
  | succ m ih =>
    have hread := readingAt_succ hm
    by_cases hhalf : (readingAt source m).halfway = true
    · -- right after the second slash
      rw [Reading.next_of_halfway hhalf] at hread
      rw [hread] at h
      refine ⟨m, Nat.lt_succ_self m, getElem?_of_halfway (Nat.le_of_succ_le hm) h hhalf, ?_, ?_⟩
      · simp [isCommentText, hhalf]
      · intro x h1 h2
        omega
    · have hhalf : (readingAt source m).halfway = false := by simpa using hhalf
      have hafter := h
      rw [hread, Reading.next_of_not_halfway hhalf] at h hh
      rcases move_after_lineComment h with ⟨hs, -⟩ | ⟨-, ht⟩
      · obtain ⟨a, hlt, hslash, hnot, htext⟩ := ih (Nat.le_of_succ_le hm) hs hhalf
        refine ⟨a, Nat.lt_succ_of_lt hlt, hslash, hnot, ?_⟩
        intro x h1 h2
        rcases Nat.eq_or_lt_of_le (Nat.le_of_lt_succ h2) with rfl | h2
        · exact isCommentText_iff.mpr ⟨hhalf, by rw [hs]; rfl, by rw [hafter]; rfl⟩
        · exact htext x h1 h2
      · exact absurd (ht.symm.trans hh) Bool.noConfusion

end SourceStamp
