import SourceStamp.Proofs.Call.Arguments

/-!
# Separated arguments

- `Sketch.wholePairs_separated`: a comma outside all brackets keeps the whole arguments before it
  apart from those after it.
- `Sketch.sketch_brackets`: the sketch of a pair of brackets with nothing around it.
- `Sketch.exists_opener_first`, `Sketch.eq_braces_of_opener`: what is shown first in a text with a
  whole argument, and what follows.
- `Sketch.exists_of_mem_wholePairs`: what is taken for a whole argument is a pair of braces with
  nothing around it.
-/

namespace SourceStamp

open Outline (isOpener isCloser)

namespace Sketch

variable {k e : Sketch} {l m : List Sight} {n : Nat} {b : Nat × Nat}

/-- All places of the sketch are past one. -/
structure Past (k : Sketch) (n : Nat) : Prop where
  commas_gt : ∀ p ∈ k.commas, n < p
  pairs_gt : ∀ b ∈ k.pairs, n < b.1 ∧ n < b.2
  marks_gt : ∀ p ∈ k.marks, n < p

theorem past_map (k : Sketch) (n : Nat) : (k.map (n + 2 + ·)).Past n := by
  have hgt : ∀ p, n < n + 2 + p := fun p => by omega
  refine ⟨?_, ?_, ?_⟩
  · exact List.forall_mem_map.mpr fun p _ => hgt p
  · exact List.forall_mem_map.mpr fun b _ => ⟨hgt b.1, hgt b.2⟩
  · exact List.forall_mem_map.mpr fun p _ => hgt p

/-- A comma outside all brackets, after what a sketch knows. -/
def separated (e : Sketch) (n : Nat) : Sketch := { e with commas := n :: e.commas }

/-- Whether no comma stands between a place and a pair of braces. -/
def inSegment (k : Sketch) (b : Nat × Nat) (m : Nat) : Bool :=
  k.commas.all fun c => decide (c < b.1 → c < m) && decide (b.2 < c → m < c)

theorem isWhole_eq (k : Sketch) (b : Nat × Nat) :
    k.isWhole b = ((k.marks.filter (k.inSegment b)).length == 1) := rfl

theorem inSegment_iff {p : Nat} :
    k.inSegment b p = true ↔ ∀ c ∈ k.commas, (c < b.1 → c < p) ∧ (b.2 < c → p < c) := by
  simp only [inSegment, List.all_eq_true, Bool.and_eq_true, decide_eq_true_eq]

theorem inSegment_after_iff {p : Nat} :
    (k.after (e.separated n)).inSegment b p = true ↔
      k.inSegment b p = true ∧ ((n < b.1 → n < p) ∧ (b.2 < n → p < n)) ∧
        e.inSegment b p = true := by
  have hcommas : (k.after (e.separated n)).commas = k.commas ++ n :: e.commas := rfl
  rw [inSegment_iff, inSegment_iff, inSegment_iff, hcommas, List.forall_mem_append,
    List.forall_mem_cons]

/-- What stands after the comma does not count for a pair of braces before it. -/
theorem isWhole_before (he : e.Below n) (hk : k.Past n) (hb : b ∈ e.pairs) :
    (k.after (e.separated n)).isWhole b = e.isWhole b := by
  obtain ⟨hb1, hb2⟩ := he.pairs_lt b hb
  have hafter : k.marks.filter ((k.after (e.separated n)).inSegment b) = [] := by
    refine List.filter_eq_nil_iff.mpr fun p hp hsegment => ?_
    have := hk.marks_gt p hp
    have := (inSegment_after_iff.mp hsegment).2.1
    omega
  have hbefore : e.marks.filter ((k.after (e.separated n)).inSegment b) =
      e.marks.filter (e.inSegment b) := by
    refine List.filter_congr fun p hp => Bool.eq_iff_iff.mpr ?_
    have hlt := he.marks_lt p hp
    refine inSegment_after_iff.trans ⟨fun h => h.2.2, fun h => ⟨inSegment_iff.mpr ?_, by omega, h⟩⟩
    intro c hc
    have := hk.commas_gt c hc
    omega
  have hmarks : (k.after (e.separated n)).marks = k.marks ++ e.marks := rfl
  rw [isWhole_eq, hmarks, List.filter_append, hafter, hbefore]
  rfl

/-- What stands before the comma does not count for a pair of braces after it. -/
theorem isWhole_past (he : e.Below n) (hk : k.Past n) (hb : b ∈ k.pairs) :
    (k.after (e.separated n)).isWhole b = k.isWhole b := by
  obtain ⟨hb1, hb2⟩ := hk.pairs_gt b hb
  have hbefore : e.marks.filter ((k.after (e.separated n)).inSegment b) = [] := by
    refine List.filter_eq_nil_iff.mpr fun p hp hsegment => ?_
    have := he.marks_lt p hp
    have := (inSegment_after_iff.mp hsegment).2.1
    omega
  have hafter : k.marks.filter ((k.after (e.separated n)).inSegment b) =
      k.marks.filter (k.inSegment b) := by
    refine List.filter_congr fun p hp => Bool.eq_iff_iff.mpr ?_
    have hgt := hk.marks_gt p hp
    refine inSegment_after_iff.trans ⟨fun h => h.1, fun h => ⟨h, by omega, inSegment_iff.mpr ?_⟩⟩
    intro c hc
    have := he.commas_lt c hc
    omega
  have hmarks : (k.after (e.separated n)).marks = k.marks ++ e.marks := rfl
  rw [isWhole_eq, hmarks, List.filter_append, hbefore, hafter, List.append_nil]
  rfl

section Separated

variable (hl : (sketch l).openBrackets = [])

include hl

theorem sketch_separated :
    sketch (l ++ .code ',' :: .hidden :: m) =
      ((sketch m).map (l.length + 2 + ·)).after ((sketch l).separated l.length) := by
  have hcomma : sketch [.code ',', .hidden] = ⟨[0], [], [], []⟩ := rfl
  have hfirst : sketch (l ++ [.code ',', .hidden]) = (sketch l).separated l.length := by
    rw [sketch_append hl, hcomma, separated, after, hl]
    rfl
  have hopen : (sketch (l ++ [.code ',', .hidden])).openBrackets = [] := by
    rw [hfirst]
    exact hl
  have happend := sketch_append hopen m
  rw [hfirst, List.append_assoc, List.length_append] at happend
  exact happend

/-- **Separation**: the whole arguments before a comma outside all brackets, and those after it. -/
theorem wholePairs_separated :
    (sketch (l ++ .code ',' :: .hidden :: m)).wholePairs =
      (sketch m).wholePairs.map (Prod.map (l.length + 2 + ·) (l.length + 2 + ·)) ++
        (sketch l).wholePairs := by
  have hmono : ∀ p q, l.length + 2 + p < l.length + 2 + q ↔ p < q := fun p q =>
    Nat.add_lt_add_iff_left
  have hbelow := below_sketch l
  have hpast := past_map (sketch m) l.length
  rw [sketch_separated hl, ← wholePairs_map hmono]
  generalize (sketch m).map (l.length + 2 + ·) = k at hpast
  have hpairs : (k.after ((sketch l).separated l.length)).pairs = k.pairs ++ (sketch l).pairs := rfl
  rw [wholePairs, hpairs, List.filter_append, wholePairs, wholePairs]
  congr 1
  · exact List.filter_congr fun b hb => isWhole_past hbelow hpast hb
  · exact List.filter_congr fun b hb => isWhole_before hbelow hpast hb

end Separated

/-! ## Whole arguments -/

/-- What is known once stays known. -/
theorem exists_run_eq (k : Sketch) (p : Nat) (l : List Sight) :
    ∃ commas marks, (k.run p l).commas = commas ++ k.commas ∧
      (k.run p l).marks = marks ++ k.marks := by
  have hsplit : k = (⟨[], [], k.openBrackets, []⟩ : Sketch).after k := rfl
  rw [hsplit, run_after]
  exact ⟨_, _, rfl, rfl⟩

/-- What is shown first leaves a mark or is a comma. -/
theorem add_empty_ne {s : Sight} (hs : s ≠ .hidden) (p : Nat) :
    (empty.add p s).marks ≠ [] ∨ (empty.add p s).commas ≠ [] := by
  cases s with
  | hidden => exact absurd rfl hs
  | text => exact .inl (List.cons_ne_nil p [])
  | code c =>
    by_cases hc : c = ','
    · rw [hc]
      exact .inr (List.cons_ne_nil p [])
    · refine .inl ?_
      simp only [add, if_neg hc, mark, close, empty]
      repeat' split
      all_goals exact List.cons_ne_nil p []

/-- The first thing that a text shows. -/
theorem exists_first_shown (l : List Sight) :
    (∀ s ∈ l, s = .hidden) ∨
      ∃ d s rest, l = d ++ s :: rest ∧ (∀ s ∈ d, s = .hidden) ∧ s ≠ .hidden := by
  cases hl : l.find? (· != .hidden) with
  | none => exact .inl (by simpa using List.find?_eq_none.mp hl)
  | some s =>
    obtain ⟨hs, d, rest, rfl, hd⟩ := List.find?_eq_some_iff_append.mp hl
    exact .inr ⟨d, s, rest, rfl, by simpa using hd, by simpa using hs⟩

theorem sketch_of_hidden (hl : ∀ s ∈ l, s = .hidden) : sketch l = empty := run_hidden hl empty 0

theorem sketch_first {d : List Sight} (hd : ∀ s ∈ d, s = .hidden) (s : Sight) (rest : List Sight) :
    sketch (d ++ s :: rest) = (empty.add d.length s).run (d.length + 1) rest := by
  rw [sketch, run_append, run_hidden hd, Nat.zero_add]
  rfl

/-- A text without marks and commas shows nothing. -/
theorem eq_hidden_of_marks (hmarks : (sketch l).marks = []) (hcommas : (sketch l).commas = []) :
    ∀ s ∈ l, s = .hidden := by
  rcases exists_first_shown l with hl | ⟨d, s, rest, rfl, hd, hs⟩
  · exact hl
  · obtain ⟨commas, marks, hcommas', hmarks'⟩ :=
      exists_run_eq (empty.add d.length s) (d.length + 1) rest
    rw [sketch_first hd, hmarks'] at hmarks
    rw [sketch_first hd, hcommas'] at hcommas
    rcases add_empty_ne hs d.length with hne | hne
    · exact absurd (List.append_eq_nil_iff.mp hmarks).2 hne
    · exact absurd (List.append_eq_nil_iff.mp hcommas).2 hne

/-- The sketch of a pair of brackets with nothing around it. -/
theorem sketch_brackets {d content rest : List Sight} {c c' : Char} (hd : ∀ s ∈ d, s = .hidden)
    (hcloses : closes c c' = true) (hcontent : level 0 content = some 0)
    (hrest : ∀ s ∈ rest, s = .hidden) :
    sketch (d ++ .code c :: (content ++ .code c' :: rest)) =
      ⟨[], if c = '\x7b' then [(d.length, d.length + 1 + content.length)] else [], [],
        [d.length]⟩ := by
  have hopen : empty.add d.length (.code c) = ⟨[], [], [(c, d.length)], [d.length]⟩ := by
    simp only [closes, Bool.or_eq_true, Bool.and_eq_true, beq_iff_eq] at hcloses
    rcases hcloses with (⟨rfl, rfl⟩ | ⟨rfl, rfl⟩) | ⟨rfl, rfl⟩ <;> rfl
  rw [sketch_first hd, hopen, run_append, run_inside (List.cons_ne_nil _ _) hcontent, run,
    run_hidden hrest]
  simp only [closes, Bool.or_eq_true, Bool.and_eq_true, beq_iff_eq] at hcloses
  rcases hcloses with (⟨rfl, rfl⟩ | ⟨rfl, rfl⟩) | ⟨rfl, rfl⟩ <;> rfl

/-- Without commas outside all brackets, a pair of braces is a whole argument when nothing else is
shown outside them. -/
theorem mem_wholePairs_iff (hcommas : k.commas = []) :
    b ∈ k.wholePairs ↔ b ∈ k.pairs ∧ k.marks.length = 1 := by
  have hall : k.marks.filter (fun _ => true) = k.marks :=
    List.filter_eq_self.mpr fun _ _ => rfl
  rw [wholePairs, List.mem_filter, isWhole, hcommas]
  simp only [List.all_nil, hall, beq_iff_eq]

/-- Nothing is shown after a whole argument that left a mark. -/
theorem sketch_eq_of_mem_wholePairs (hopen : (sketch l).openBrackets = [])
    (hmark : (sketch l).marks ≠ []) (hcommas : (sketch (l ++ m)).commas = [])
    (hb : b ∈ (sketch (l ++ m)).wholePairs) :
    (∀ s ∈ m, s = .hidden) ∧ b ∈ (sketch l).pairs := by
  have hmarks := ((mem_wholePairs_iff hcommas).mp hb).2
  have happend := sketch_append hopen m
  rw [happend] at hcommas hmarks
  have hhidden : ∀ s ∈ m, s = .hidden := by
    refine eq_hidden_of_marks ?_ (List.map_eq_nil_iff.mp (List.append_eq_nil_iff.mp hcommas).1)
    have hlength := List.length_pos_iff.mpr hmark
    have hsum : ((sketch m).marks.map (l.length + ·) ++ (sketch l).marks).length = 1 := hmarks
    rw [List.length_append, List.length_map] at hsum
    exact List.length_eq_zero_iff.mp (by omega)
  refine ⟨hhidden, ?_⟩
  have hsame : sketch (l ++ m) = sketch l := by
    rw [sketch, run_append]
    exact run_hidden hhidden _ _
  rw [hsame] at hb
  exact (List.mem_filter.mp hb).1

section First

variable {d rest : List Sight} (hd : ∀ s ∈ d, s = .hidden)

include hd

/-- What is shown first, opens nothing and closes nothing leaves a mark of its own, so no pair is a
whole argument after it. -/
theorem not_mem_wholePairs_of_plain {s : Sight} (hs : s ≠ .hidden)
    (hopen : (empty.add d.length s).openBrackets = []) (hpairs : (empty.add d.length s).pairs = [])
    (hcommas : (sketch (d ++ s :: rest)).commas = []) : b ∉ (sketch (d ++ s :: rest)).wholePairs := by
  intro hb
  have hfirst : sketch (d ++ [s]) = empty.add d.length s := sketch_first hd s []
  have hlist : d ++ s :: rest = (d ++ [s]) ++ rest := by simp
  obtain ⟨commas, -, hcommas', -⟩ := exists_run_eq (empty.add d.length s) (d.length + 1) rest
  have hnone : (empty.add d.length s).commas = [] := by
    rw [sketch_first hd, hcommas'] at hcommas
    exact (List.append_eq_nil_iff.mp hcommas).2
  have hmark := (add_empty_ne hs d.length).resolve_right (not_not.mpr hnone)
  rw [hlist] at hcommas hb
  rw [← hfirst] at hopen hpairs hmark
  have hmem := (sketch_eq_of_mem_wholePairs hopen hmark hcommas hb).2
  rw [hpairs] at hmem
  cases hmem

/-- What is shown first before a whole argument opens a bracket. -/
theorem exists_opener_first {s : Sight} (hs : s ≠ .hidden) (hnested : isNested [] (s :: rest) = true)
    (hcommas : (sketch (d ++ s :: rest)).commas = [])
    (hb : b ∈ (sketch (d ++ s :: rest)).wholePairs) : ∃ c, s = .code c ∧ isOpener c = true := by
  have hplain := fun hopen hpairs => not_mem_wholePairs_of_plain (b := b) hd hs hopen hpairs hcommas
  cases s with
  | hidden => exact absurd rfl hs
  | text => exact absurd hb (hplain rfl rfl)
  | code c =>
    refine ⟨c, rfl, ?_⟩
    by_contra hc
    by_cases hc' : isCloser c = true
    · rw [isNested_stray _ hc hc'] at hnested
      cases hnested
    · refine absurd hb (hplain ?_ ?_)
      · rw [add_code_openBrackets, if_neg hc, if_neg hc']
        rfl
      · simp only [add, if_neg hc, if_neg hc', mark, empty]
        repeat' split
        all_goals rfl

/-- When a bracket is shown first, a whole argument is what it encloses. -/
theorem eq_braces_of_opener {c : Char} (hc : isOpener c = true)
    (hnested : isNested [] (.code c :: rest) = true)
    (hcommas : (sketch (d ++ .code c :: rest)).commas = [])
    (hb : b ∈ (sketch (d ++ .code c :: rest)).wholePairs) :
    c = '\x7b' ∧ ∃ content tail, rest = content ++ .code '\x7d' :: tail ∧
      isNested [] content = true ∧ ∀ s ∈ tail, s = .hidden := by
  rw [isNested_opener _ hc] at hnested
  obtain ⟨content, c', tail, rfl, hcontent, hcloses, -⟩ := @exists_of_isNested [] c [] _ hnested
  have hlist : d ++ .code c :: (content ++ .code c' :: tail) =
      (d ++ .code c :: (content ++ .code c' :: [])) ++ tail := by simp
  have hnone : ∀ s ∈ ([] : List Sight), s = .hidden := fun _ h => nomatch h
  have hsketch := sketch_brackets hd hcloses (level_of_isNested hcontent) hnone
  rw [hlist] at hcommas hb
  obtain ⟨htail, hmem⟩ := sketch_eq_of_mem_wholePairs (by rw [hsketch])
    (by rw [hsketch]; exact List.cons_ne_nil _ _) hcommas hb
  rw [hsketch] at hmem
  by_cases hbrace : c = '\x7b'
  · have hbrace' : c' = '\x7d' := by
      rw [hbrace] at hcloses
      simpa [closes] using hcloses
    exact ⟨hbrace, content, tail, by rw [hbrace'], hcontent, htail⟩
  · dsimp only at hmem
    rw [if_neg hbrace] at hmem
    cases hmem

end First

/-- **Whole arguments**: in nested code without commas outside all brackets, a pair of braces that
is taken for a whole argument is all that is shown. -/
theorem exists_of_mem_wholePairs (hnested : isNested [] l = true)
    (hcommas : (sketch l).commas = []) (hb : b ∈ (sketch l).wholePairs) :
    ∃ d content rest, l = d ++ .code '\x7b' :: (content ++ .code '\x7d' :: rest) ∧
      (∀ s ∈ d, s = .hidden) ∧ isNested [] content = true ∧ ∀ s ∈ rest, s = .hidden := by
  rcases exists_first_shown l with hl | ⟨d, s, rest, rfl, hd, hs⟩
  · have hpairs := ((mem_wholePairs_iff hcommas).mp hb).1
    rw [sketch_of_hidden hl] at hpairs
    cases hpairs
  · have hnested' : isNested [] (s :: rest) = true :=
      (isNested_append (isNested_of_hidden hd) [] _).symm.trans hnested
    obtain ⟨c, rfl, hc⟩ := exists_opener_first hd hs hnested' hcommas hb
    obtain ⟨rfl, content, tail, rfl, hcontent, htail⟩ :=
      eq_braces_of_opener hd hc hnested' hcommas hb
    exact ⟨d, content, tail, rfl, hd, hcontent, htail⟩

end Sketch
end SourceStamp
