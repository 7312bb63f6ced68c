import SourceStamp.Proofs.Call.Layout

/-!
# Blanks and comments

- `Trivia`: a text of blanks and whole comments.
- `trivia_of_gap`: what a gap between two places in code consists of.
- `Trivia.append_ne`: what stands after trivia starts where the trivia end.
-/

namespace SourceStamp

open Text (isBlank)

/-- A text of blanks and comments, of which the last one ends with the text at the latest. -/
inductive Trivia : Text → Prop where
  /-- No text. -/
  | nil : Trivia []
  /-- A blank. -/
  | blank {c : Char} {t : Text} (hc : isBlank c = true) (ht : Trivia t) : Trivia (c :: t)
  /-- A comment that the end of the line closes. -/
  | line {body t : Text} (hbody : '\n' ∉ body) (ht : Trivia t) :
    Trivia ('/' :: '/' :: (body ++ '\n' :: t))
  /-- A comment with a closing delimiter, which does not stand any earlier in it. -/
  | block {body t : Text} (hbody : ¬ ['*', '/'] <:+: body ++ ['*']) (ht : Trivia t) :
    Trivia ('/' :: '*' :: (body ++ '*' :: '/' :: t))

namespace Trivia

/-- The rest of a comment that the end of the line closes, and trivia after it. -/
def InLine (t : Text) : Prop := ∃ body rest, t = body ++ '\n' :: rest ∧ '\n' ∉ body ∧ Trivia rest

/-- The rest of a comment with a closing delimiter, and trivia after it. -/
def InBlock (t : Text) : Prop :=
  ∃ body rest, t = body ++ '*' :: '/' :: rest ∧ ¬ ['*', '/'] <:+: body ++ ['*'] ∧ Trivia rest

theorem InLine.cons {c : Char} {t : Text} (hc : c ≠ '\n') (h : InLine t) : InLine (c :: t) := by
  obtain ⟨body, rest, rfl, hbody, hrest⟩ := h
  refine ⟨c :: body, rest, rfl, ?_, hrest⟩
  rw [List.mem_cons, not_or]
  exact ⟨Ne.symm hc, hbody⟩

theorem InBlock.cons {c : Char} {t : Text} (hc : ¬ (c = '*' ∧ t.head? = some '/'))
    (h : InBlock t) : InBlock (c :: t) := by
  obtain ⟨body, rest, rfl, hbody, hrest⟩ := h
  refine ⟨c :: body, rest, rfl, ?_, hrest⟩
  rw [List.cons_append, List.infix_cons_iff, not_or]
  refine ⟨?_, hbody⟩
  intro hprefix
  obtain ⟨hstar, hprefix⟩ := List.cons_prefix_cons.mp hprefix
  cases body with
  | nil => exact absurd (List.cons_prefix_cons.mp hprefix).1 (by decide)
  | cons d body => exact hc ⟨hstar.symm, congrArg some (List.cons_prefix_cons.mp hprefix).1.symm⟩

/-- What a reader finds that passes over a text to code, from a state on. -/
def Passed : LexicalState → Text → Prop
  | .code, t => Trivia t
  | .lineComment, t => InLine t
  | .blockComment, t => InBlock t
  | .string _, _ | .template _, _ => True

end Trivia

open Trivia (Passed)

/-- In code nothing but blanks and comment openers goes unnoticed. -/
theorem isSignificant_code_iff {p : Nat} {c : Char} {n : Option Char} :
    Visit.isSignificant ⟨p, c, n, .code⟩ = false ↔
      isBlank c = true ∨ c = '/' ∧ (n = some '/' ∨ n = some '*') := by
  simp [Visit.isSignificant, LexicalState.inComment, LexicalState.isCode, Outline.opensComment,
    ← Bool.not_eq_true, Classical.or_iff_not_imp_left]

/-- A blank in code opens nothing. -/
theorem move_code_of_isBlank {c : Char} (h : isBlank c = true) (e : Bool) (n : Option Char) :
    LexicalState.code.move e c n = ⟨.code, false⟩ := by
  have hne : ∀ d, isBlank d = false → c ≠ d := fun d hd heq => by
    rw [heq, hd] at h
    cases h
  have hslash : c ≠ '/' := hne _ (by decide)
  have hdouble : c ≠ Text.doubleQuote := hne _ (by decide)
  have hsingle : c ≠ Text.singleQuote := hne _ (by decide)
  have htick : c ≠ Text.backtick := hne _ (by decide)
  simp [LexicalState.move, hslash, hdouble, hsingle, htick]

/-- Trivia after trivia are trivia. -/
theorem Trivia.append {t u : Text} (ht : Trivia t) (hu : Trivia u) : Trivia (t ++ u) := by
  induction ht with
  | nil => exact hu
  | blank hc _ ih => exact .blank hc ih
  | line hbody _ ih =>
    rw [List.cons_append, List.cons_append, List.append_assoc]
    exact .line hbody ih
  | block hbody _ ih =>
    rw [List.cons_append, List.cons_append, List.append_assoc]
    exact .block hbody ih

/-! ## One step -/

/-- What a reader finds after a step. -/
def PassedAfter (m : LexicalState.Move) (t : Text) : Prop :=
  Passed m.after (if m.takesNext then t.tail else t)

section Steps

variable {escaped : Bool} {c : Char} {f : Option Char} {t : Text} {p : Nat}

theorem passed_code_cons (hvisit : Visit.isSignificant ⟨p, c, t.head?, .code⟩ = false)
    (h : PassedAfter (LexicalState.code.move escaped c (t.head?.or f)) t) :
    Passed .code (c :: t) := by
  rcases isSignificant_code_iff.mp hvisit with hblank | ⟨rfl, hopens | hopens⟩
  · rw [move_code_of_isBlank hblank] at h
    exact .blank hblank h
  · obtain ⟨t, rfl⟩ := List.head?_eq_some_iff.mp hopens
    obtain ⟨body, rest, rfl, hbody, htrivia⟩ : Trivia.InLine t := h
    exact .line hbody htrivia
  · obtain ⟨t, rfl⟩ := List.head?_eq_some_iff.mp hopens
    obtain ⟨body, rest, rfl, hbody, htrivia⟩ : Trivia.InBlock t := h
    exact .block hbody htrivia

theorem passed_lineComment_cons {next : Option Char}
    (h : PassedAfter (LexicalState.lineComment.move escaped c next) t) :
    Passed .lineComment (c :: t) := by
  by_cases hc : c = '\n'
  · subst hc
    exact ⟨[], t, rfl, List.not_mem_nil, h⟩
  · simp only [PassedAfter, LexicalState.move, if_neg hc] at h
    exact h.cons hc

/-- A block comment does not end with a delimiter whose second character lies outside the text. -/
theorem passed_blockComment_cons
    (h : PassedAfter (LexicalState.blockComment.move escaped c (t.head?.or f)) t)
    (hend : t = [] → (LexicalState.blockComment.move escaped c f).takesNext = false) :
    Passed .blockComment (c :: t) := by
  by_cases hc : c = '*' ∧ t.head?.or f = some '/'
  · simp only [PassedAfter, LexicalState.move, if_pos hc] at h
    obtain ⟨rfl, hslash⟩ := hc
    cases t with
    | nil =>
      obtain rfl : f = some '/' := hslash
      exact absurd (hend rfl) (by simp [LexicalState.move])
    | cons d t =>
      obtain rfl : d = '/' := Option.some.inj hslash
      exact ⟨[], t, rfl, by decide, h⟩
  · simp only [PassedAfter, LexicalState.move, if_neg hc] at h
    refine h.cons fun hcloses => hc ⟨hcloses.1, ?_⟩
    rw [hcloses.2]
    rfl

end Steps

/-- A reader that sees nothing significant on its way to code passes over trivia. -/
theorem passed_of_visits {t : Text} {r : Reading} {p : Nat} {f : Option Char}
    (hvisits : ∀ v ∈ r.visits p t, v.isSignificant = false) (hend : (r.read f t).InCode) :
    Passed r.state (if r.halfway then t.tail else t) := by
  induction t generalizing r p with
  | nil =>
    rw [Reading.read_nil] at hend
    rw [hend.state_eq, hend.halfway_eq]
    exact .nil
  | cons c t ih =>
    rw [Reading.read_cons] at hend
    cases hh : r.halfway with
    | true =>
      rw [Reading.visits_of_halfway hh] at hvisits
      rw [Reading.next_of_halfway hh] at hvisits hend
      exact ih hvisits hend
    | false =>
      rw [Reading.visits_of_not_halfway hh, List.forall_mem_cons] at hvisits
      obtain ⟨hvisit, hvisits⟩ := hvisits
      -- after the last character there is nothing to visit
      have hrest : ∀ v ∈ (r.next c (t.head?.or f)).visits (p + 1) t, v.isSignificant = false := by
        cases t with
        | nil => exact fun v hv => nomatch hv
        | cons d t => exact hvisits
      have hpassed := ih hrest hend
      rw [Reading.next_of_not_halfway hh] at hpassed hend
      rw [if_neg Bool.false_ne_true]
      cases hs : r.state with
      | string | template => trivial
      | code =>
        rw [hs] at hvisit hpassed
        exact passed_code_cons hvisit hpassed
      | lineComment =>
        rw [hs] at hpassed
        exact passed_lineComment_cons hpassed
      | blockComment =>
        rw [hs] at hpassed hend
        refine passed_blockComment_cons hpassed ?_
        rintro rfl
        exact hend.halfway_eq

/-! ## Gaps -/

/-- A text without anything significant, from code to code, is trivia. -/
theorem trivia_of_gap {t : Text} (hgap : Gap t 0 t.length) (hend : (readingAt t t.length).InCode) :
    Trivia t := by
  rw [readingAt, List.take_length] at hend
  refine passed_of_visits (r := .start) (p := 0) ?_ hend
  intro v hv
  obtain ⟨-, hat⟩ := (Scanner.start_follows t).visits_spec.1 v (by rwa [Scanner.visits_eq])
  have hlt : v.position < t.length := (List.getElem?_eq_some_iff.mp hat.char_eq).1
  have hsig : isSignificantAt t v.position = v.isSignificant := by
    rw [isSignificantAt, hat.char_eq, hat.halfway_eq, hat.state_eq, ← hat.next_eq]
    rfl
  refine Bool.eq_false_iff.mpr fun h => ?_
  have := hgap v.position (hsig.trans h) (Nat.zero_le _)
  omega

/-- So is a gap between two places in code, unless its end completes a delimiter. -/
theorem trivia_of_gap_between {source : Text} {first stop : Nat} (hgap : Gap source first stop)
    (hle : first ≤ stop) (hlen : stop ≤ source.length) (hfirst : (readingAt source first).InCode)
    (hstop : (readingAt source stop).InCode) (hnot : ¬ Reading.IsSecond source[stop]?) :
    Trivia ((source.drop first).take (stop - first)) := by
  have hat : StandsAt source first ((source.drop first).take (stop - first))
      (source.drop stop) := by
    refine ⟨hfirst, ?_, by rwa [List.head?_drop]⟩
    have hsplit := List.take_append_drop (stop - first) (source.drop first)
    rw [List.drop_drop, Nat.add_sub_cancel' hle] at hsplit
    exact hsplit.symm
  have hlength : ((source.drop first).take (stop - first)).length = stop - first := by
    rw [List.length_take, List.length_drop]
    omega
  refine trivia_of_gap ?_ ?_
  · intro p hp _
    refine Nat.le_of_not_lt fun hlt => ?_
    rw [← hat.isSignificantAt_add hlt] at hp
    have := hgap _ hp (Nat.le_add_right first p)
    omega
  · refine (hat.agree (Nat.le_refl _)).inCode ?_
    rwa [hlength, Nat.add_sub_cancel' hle]

/-- After trivia the first character that is neither blank nor a slash is the one that follows
them. -/
theorem Trivia.append_ne {w : Text} (hw : Trivia w) (blanks : Text) {c d : Char}
    (hblanks : ∀ b ∈ blanks, isBlank b = true) (hc : isBlank c = false) (hs : c ≠ '/')
    (hd : isBlank d = false) (hcd : c ≠ d) (rest rest' : Text) :
    blanks ++ c :: rest ≠ w ++ d :: rest' := by
  have hslash : isBlank '/' = false := by decide
  intro heq
  induction hw generalizing blanks with
  | nil =>
    cases blanks with
    | nil => exact hcd (List.cons.inj heq).1
    | cons b blanks =>
      have hb := hblanks b List.mem_cons_self
      rw [(List.cons.inj heq).1, hd] at hb
      cases hb
  | blank hblank _ ih =>
    cases blanks with
    | nil =>
      rw [← (List.cons.inj heq).1, hc] at hblank
      cases hblank
    | cons b blanks =>
      exact ih blanks (fun b hb => hblanks b (List.mem_cons_of_mem _ hb)) (List.cons.inj heq).2
  | line | block =>
    cases blanks with
    | nil => exact hs (List.cons.inj heq).1
    | cons b blanks =>
      have hb := hblanks b List.mem_cons_self
      rw [(List.cons.inj heq).1, hslash] at hb
      cases hb

end SourceStamp
