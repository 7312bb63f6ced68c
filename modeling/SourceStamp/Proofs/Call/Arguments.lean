import SourceStamp.Proofs.Call.Filled
import SourceStamp.Proofs.Call.Sketch
import SourceStamp.Proofs.Call.Trivia

/-!
# The arguments of a call

The commas outside all brackets part an argument list into its arguments.

- `ArgumentList.parts`, `ArgumentList.arguments`: the texts between the commas of a layout. There are
  as many arguments as the layout counts, by `ArgumentList.length_arguments`.
- `partsOf_append`: where one text follows another, the last part of the one and the first part of
  the other become one, and all other parts stay as they are.
- `trivia_of_trailing`: after a comma that ends the list only blanks and comments stand.
- `Stamp.reads_furtherArguments`: the parts of what is added to a call.
-/

namespace SourceStamp

open Outline (isOpener isCloser)

/-! ## Parts -/

/-- The stretches of a text from an offset on, up to each of the given places and past it. -/
def partsFrom (t : Text) (start : Nat) : List Nat → List Text
  | [] => [t.drop start]
  | p :: ps => (t.drop start).take (p - start) :: partsFrom t (p + 1) ps

/-- The stretches between the commas that a text shows outside all brackets. -/
def partsOf (t : Text) : List Text := partsFrom t 0 (sketch (sights t)).commas.reverse

namespace ArgumentList

/-- The stretches between the commas of the layout. -/
def parts (l : ArgumentList) : List Text :=
  partsFrom l.text 0 (l.layout.commas.map fun c => (c - (l.openParen + 1)).toNat)

/-- The arguments, with the blanks and comments that stand between the same commas. -/
def arguments (l : ArgumentList) : List Text :=
  if l.layout.isEmpty then []
  else if l.layout.trailing then l.parts.dropLast
  else l.parts

end ArgumentList

theorem length_partsFrom (t : Text) (start : Nat) (ps : List Nat) :
    (partsFrom t start ps).length = ps.length + 1 := by
  induction ps generalizing start with
  | nil => rfl
  | cons p ps ih => rw [partsFrom, List.length_cons, ih, List.length_cons]

theorem partsFrom_ne_nil (t : Text) (start : Nat) (ps : List Nat) : partsFrom t start ps ≠ [] :=
  List.ne_nil_of_length_eq_add_one (length_partsFrom t start ps)

/-- The last part starts after the last place. -/
theorem exists_partsFrom_concat (t : Text) (start : Nat) (ps : List Nat) (p : Nat) :
    ∃ front, partsFrom t start (ps ++ [p]) = front ++ [t.drop (p + 1)] := by
  induction ps generalizing start with
  | nil => exact ⟨[_], rfl⟩
  | cons q ps ih =>
    obtain ⟨front, hfront⟩ := ih (q + 1)
    exact ⟨(t.drop start).take (q - start) :: front, congrArg (List.cons _) hfront⟩

/-- Parts do not depend on what stands before them. -/
theorem partsFrom_shift (x y : Text) (start : Nat) (ps : List Nat) :
    partsFrom (x ++ y) (x.length + start) (ps.map (x.length + ·)) = partsFrom y start ps := by
  induction ps generalizing start with
  | nil => rw [List.map_nil, partsFrom, partsFrom, List.drop_length_add_append]
  | cons p ps ih =>
    have hnext := ih (p + 1)
    rw [← Nat.add_assoc] at hnext
    rw [List.map_cons, partsFrom, partsFrom, hnext, List.drop_length_add_append,
      Nat.add_sub_add_left]

/-- The last part before a seam and the first one after it become one. -/
theorem partsFrom_append {x y : Text} {start : Nat} {ps qs : List Nat} {front rest : List Text}
    {last first : Text} (hstart : start ≤ x.length) (hps : ∀ p ∈ ps, p < x.length)
    (hx : partsFrom x start ps = front ++ [last]) (hy : partsFrom y 0 qs = first :: rest) :
    partsFrom (x ++ y) start (ps ++ qs.map (x.length + ·)) = front ++ (last ++ first) :: rest := by
  have hdrop : (x ++ y).drop start = x.drop start ++ y := List.drop_append_of_le_length hstart
  induction ps generalizing start front with
  | nil =>
    -- what is left of the first text is its last part
    obtain ⟨rfl, hlast⟩ : front = [] ∧ last = x.drop start := by
      cases front with
      | nil => exact ⟨rfl, (List.cons.inj hx).1.symm⟩
      | cons a front => simp [partsFrom] at hx
    rw [List.nil_append, List.nil_append]
    cases qs with
    | nil =>
      obtain ⟨rfl, rfl⟩ := List.cons.inj hy
      rw [List.map_nil, partsFrom, hdrop, hlast, List.drop_zero]
    | cons q qs =>
      obtain ⟨rfl, rfl⟩ := List.cons.inj hy
      have hnext := partsFrom_shift x y (q + 1) qs
      have hlength : x.length + q - start = (x.drop start).length + q := by
        rw [List.length_drop]
        omega
      rw [← Nat.add_assoc] at hnext
      rw [List.map_cons, partsFrom, hnext, hdrop, hlast, hlength, List.take_length_add_append,
        List.drop_zero, Nat.sub_zero]
  | cons p ps ih =>
    obtain ⟨hp, hps⟩ := List.forall_mem_cons.mp hps
    cases front with
    | nil =>
      have hnil : partsFrom x (p + 1) ps = [] := (List.cons.inj hx).2
      exact absurd hnil (partsFrom_ne_nil x (p + 1) ps)
    | cons a front =>
      obtain ⟨rfl, hrest⟩ := List.cons.inj hx
      have hnext := ih hp hps hrest (List.drop_append_of_le_length hp)
      rw [List.cons_append, partsFrom, hnext, hdrop,
        List.take_append_of_le_length (by rw [List.length_drop]; omega), List.cons_append]

/-! ## Commas -/

namespace Sketch

variable {k : Sketch} {l : List Sight}

theorem mark_commas (k : Sketch) (p : Nat) : (k.mark p).commas = k.commas := by
  unfold mark
  split <;> rfl

theorem close_commas (k : Sketch) (c : Char) (p : Nat) : (k.close c p).commas = k.commas := by
  unfold close
  split
  · rfl
  · dsimp only
    split <;> rfl

theorem close_openBrackets (k : Sketch) (c : Char) (p : Nat) :
    (k.close c p).openBrackets = k.openBrackets.tail := by
  unfold close
  split
  · next h => rw [h]; rfl
  · next opener opened rest h =>
    rw [h]
    dsimp only
    split <;> rfl

/-- Which brackets are open after one more sight. -/
theorem add_code_openBrackets (k : Sketch) (p : Nat) (c : Char) :
    (k.add p (.code c)).openBrackets =
      if isOpener c then (c, p) :: k.openBrackets
      else if isCloser c then k.openBrackets.tail
      else k.openBrackets := by
  have hmarked : (if c = ',' then k else k.mark p).openBrackets = k.openBrackets := by
    split
    · rfl
    · exact mark_openBrackets k p
  unfold add
  dsimp only
  split
  · rfl
  · split
    · rw [close_openBrackets, hmarked]
    · split <;> exact hmarked

/-- Which commas are known after one more sight. -/
theorem add_code_commas (k : Sketch) (p : Nat) (c : Char) :
    (k.add p (.code c)).commas =
      if isOpener c then k.commas
      else if isCloser c then k.commas
      else if c = ',' ∧ k.openBrackets = [] then p :: k.commas
      else k.commas := by
  have hmarked : (if c = ',' then k else k.mark p).commas = k.commas := by
    split
    · rfl
    · exact mark_commas k p
  unfold add
  dsimp only
  split
  · exact hmarked
  · split
    · rw [close_commas, hmarked]
    · split
      · rfl
      · exact hmarked

/-- A sketch has as many brackets open as there are. -/
theorem length_add_openBrackets {p : Nat} {s : Sight} {e : Nat}
    (h : levelAfter k.openBrackets.length s = some e) : (k.add p s).openBrackets.length = e := by
  cases s with
  | hidden => exact Option.some.inj h
  | text =>
    rw [add, mark_openBrackets]
    exact Option.some.inj h
  | code c =>
    rw [add_code_openBrackets]
    simp only [levelAfter] at h
    split at h
    · next hc =>
      rw [if_pos hc, List.length_cons]
      exact Option.some.inj h
    · next hc =>
      rw [if_neg hc]
      split at h
      · next hc' =>
        rw [if_pos hc', List.length_tail]
        split at h
        · cases h
        · exact Option.some.inj h
      · next hc' =>
        rw [if_neg hc']
        exact Option.some.inj h

theorem length_run_openBrackets {p e : Nat} (h : level k.openBrackets.length l = some e) :
    (k.run p l).openBrackets.length = e := by
  induction l generalizing k p with
  | nil => exact Option.some.inj h
  | cons s l ih =>
    rw [level_cons] at h
    obtain ⟨d, hd, h⟩ := Option.bind_eq_some_iff.mp h
    refine ih ?_
    rw [length_add_openBrackets hd]
    exact h

/-- No bracket is open after a text whose brackets all close. -/
theorem openBrackets_eq_nil (h : level 0 l = some 0) : (sketch l).openBrackets = [] :=
  List.length_eq_zero_iff.mp (length_run_openBrackets (k := empty) h)

/-- After a text whose brackets all close, the next text has the commas that it has on its own. -/
theorem commas_append (h : (sketch l).openBrackets = []) (m : List Sight) :
    (sketch (l ++ m)).commas = (sketch m).commas.map (l.length + ·) ++ (sketch l).commas := by
  rw [sketch_append h]
  rfl

/-- Where a comma is known, no bracket is open. -/
theorem comma_spec {p : Nat} (h : p ∈ (sketch l).commas) :
    l[p]? = some (.code ',') ∧ (sketch (l.take p)).openBrackets = [] := by
  induction l using List.reverseRecOn with
  | nil => cases h
  | append_singleton l s ih =>
    have hbefore : p ∈ (sketch l).commas → (l ++ [s])[p]? = some (.code ',') ∧
        (sketch ((l ++ [s]).take p)).openBrackets = [] := fun hp => by
      have hlt := (below_sketch l).commas_lt p hp
      rw [List.getElem?_append_left hlt, List.take_append_of_le_length (Nat.le_of_lt hlt)]
      exact ih hp
    rw [sketch_concat] at h
    cases s with
    | hidden => exact hbefore h
    | text =>
      rw [add, mark_commas] at h
      exact hbefore h
    | code c =>
      rw [add_code_commas] at h
      split at h
      · exact hbefore h
      · split at h
        · exact hbefore h
        · split at h
          · next hcomma =>
            rcases List.mem_cons.mp h with rfl | h
            · rw [List.getElem?_concat_length, List.take_left, hcomma.1]
              exact ⟨rfl, hcomma.2⟩
            · exact hbefore h
          · exact hbefore h

end Sketch

/-! ## The parts of texts -/

/-- **Parts of two texts** of which the first one closes all its brackets. -/
theorem partsOf_append {x y : Text} {front rest : List Text} {last first : Text}
    (hsights : sights (x ++ y) = sights x ++ sights y) (hlevel : level 0 (sights x) = some 0)
    (hx : partsOf x = front ++ [last]) (hy : partsOf y = first :: rest) :
    partsOf (x ++ y) = front ++ (last ++ first) :: rest := by
  have hbelow : ∀ p ∈ (sketch (sights x)).commas.reverse, p < x.length := by
    intro p hp
    have hlt := (Sketch.below_sketch (sights x)).commas_lt p (List.mem_reverse.mp hp)
    rwa [length_sights] at hlt
  rw [partsOf, hsights, Sketch.commas_append (Sketch.openBrackets_eq_nil hlevel),
    List.reverse_append, ← List.map_reverse, length_sights]
  exact partsFrom_append (Nat.zero_le _) hbelow hx hy

theorem partsOf_ne_nil (t : Text) : partsOf t ≠ [] := partsFrom_ne_nil _ _ _

/-- A text without commas outside all brackets is a single part. -/
theorem partsOf_eq_singleton {t : Text} (h : (sketch (sights t)).commas = []) :
    partsOf t = [t] := by
  rw [partsOf, h]
  rfl

/-- The number of arguments, by the commas outside all brackets. -/
theorem ArgumentLayout.count_eq_commas (base : Int) (t : Text) :
    (ofText base t).count = if (ofText base t).isEmpty then 0
      else if (ofText base t).trailing then (ofText base t).commas.length
      else (ofText base t).commas.length + 1 := by
  rw [ofText, ofOutline]
  split
  · rfl
  · simp only [Bool.false_eq_true, if_false, List.length_map, List.length_reverse]

namespace ArgumentList

/-- The parts of an argument list can be told from its text. -/
theorem parts_eq (l : ArgumentList) : l.parts = partsOf l.text := by
  have hplace : ∀ c : Nat, (l.openParen + 1 + (c : Int) - (l.openParen + 1)).toNat = c := by
    intro c
    omega
  rw [parts, layout, ArgumentLayout.commas_eq, List.map_map, partsOf]
  congr 1
  exact (List.map_congr_left fun c _ => hplace c).trans (List.map_id' _)

/-- There are as many arguments as are counted. -/
theorem length_arguments (l : ArgumentList) : l.arguments.length = l.layout.count := by
  have hlength : l.parts.length = l.layout.commas.length + 1 := by
    rw [parts, length_partsFrom, List.length_map]
  rw [arguments, layout, ArgumentLayout.count_eq_commas]
  split
  · rfl
  · split
    · rw [List.length_dropLast, hlength, Nat.add_sub_cancel]
      rfl
    · exact hlength

/-- Where no comma ends a list that is not empty, its parts are its arguments. -/
theorem arguments_of_tally {l : ArgumentList} {commas : Nat}
    (h : tally (sights l.text) = ⟨0, commas, true, false⟩) : l.arguments = partsOf l.text := by
  have hempty : l.layout.isEmpty = false := by
    rw [layout, ArgumentLayout.isEmpty_eq, h]
    rfl
  have htrailing : l.layout.trailing = false := by
    rw [layout, ArgumentLayout.trailing_eq, h]
  rw [arguments, hempty, htrailing]
  exact parts_eq l

end ArgumentList

/-- Only an empty list has no arguments. -/
theorem ArgumentLayout.count_eq_zero_iff {base : Int} {t : Text} :
    (ofText base t).count = 0 ↔ (ofText base t).isEmpty = true := by
  unfold ofText ofOutline
  split
  · simp
  · next p c hlast =>
    dsimp only
    split
    · next htrailing =>
      have hhead : ((Scanner.start t).visits.foldl Outline.add .empty).commas.head? = some p := by
        simpa using htrailing
      obtain ⟨commas, hcommas⟩ := List.head?_eq_some_iff.mp hhead
      simp [hcommas]
    · simp

/-- Nothing significant follows a comma at the end. -/
theorem exists_of_trailing {base : Int} {t : Text}
    (h : (ArgumentLayout.ofText base t).trailing = true) :
    ∃ p commas, (sketch (sights t)).commas = p :: commas ∧ p < t.length ∧ Gap t (p + 1) t.length ∧
      ((readingAt t t.length).InCode → (readingAt t (p + 1)).InCode) := by
  obtain ⟨s, hfollows, hposition, htracks⟩ := Outline.tracks_ofText t
  have hsketch := Outline.sketch_ofText t
  unfold ArgumentLayout.ofText ArgumentLayout.ofOutline at h
  generalize (Scanner.start t).visits.foldl Outline.add .empty = o at h htracks hsketch
  split at h
  · cases h
  · next p c hlast =>
    have hhead : o.commas.head? = some p := by simpa using h
    obtain ⟨commas, hcommas⟩ := List.head?_eq_some_iff.mp hhead
    have hbefore := htracks.last_before p c hlast
    have hlt : p < t.length := hposition ▸ hbefore.lt
    have hgap : Gap t (p + 1) t.length := hposition ▸ hbefore.gap
    refine ⟨p, commas, ?_, hlt, hgap, fun hend => hbefore.settled ?_⟩
    · rw [← hsketch]
      exact hcommas
    · have hstate := hend.state_eq
      rw [← hposition, hfollows.reading_eq] at hstate
      have hcode : s.state = .code := hstate
      rw [hcode]
      rfl

/-- **A comma at the end**: the last part consists of blanks and comments. -/
theorem trivia_of_trailing {base : Int} {t : Text} (hend : (readingAt t t.length).InCode)
    (h : (ArgumentLayout.ofText base t).trailing = true) :
    ∃ front gap, partsOf t = front ++ [gap] ∧ Trivia gap := by
  obtain ⟨p, commas, hcommas, hlt, hgap, hcode⟩ := exists_of_trailing h
  have hparts : partsOf t = partsFrom t 0 (commas.reverse ++ [p]) := by
    rw [partsOf, hcommas, List.reverse_cons]
  obtain ⟨front, hfront⟩ := exists_partsFrom_concat t 0 commas.reverse p
  refine ⟨front, t.drop (p + 1), hparts.trans hfront, ?_⟩
  have htrivia := trivia_of_gap_between hgap hlt (Nat.le_refl _) (hcode hend) hend
    (by simp [Reading.IsSecond])
  rwa [List.take_of_length_le (Nat.le_of_eq List.length_drop)] at htrivia

/-! ## What is added to a call -/

namespace Stamp

open List (Forall₂)

/-- A part of an argument list reads an argument: that stands in it, after blanks and comments. -/
def Reads (part argument : Text) : Prop := ∃ gap, Trivia gap ∧ part = gap ++ argument

theorem reads_self (argument : Text) : Reads argument argument := ⟨[], .nil, rfl⟩

theorem Reads.after {part argument gap : Text} (h : Reads part argument) (hgap : Trivia gap) :
    Reads (gap ++ part) argument := by
  obtain ⟨gap', hgap', rfl⟩ := h
  exact ⟨gap ++ gap', hgap.append hgap', (List.append_assoc ..).symm⟩

theorem trivia_blank : Trivia " ".toList := .blank (by decide) .nil

/-- The arguments that are added to a call. -/
def added (n : Nat) (file : Text) (line : Int) : List Text :=
  List.replicate n placeholder ++ [object file line]

variable {file : Text} {line : Int}

/-- No comma of a stamp stands outside all brackets. -/
theorem sketch_object (hfile : file.getLast? ≠ some Text.backslash) :
    (sketch (sights (object file line))).commas = [] ∧
      level 0 (sights (object file line)) = some 0 := by
  have hproperty : Tidy (property file line) := tidy_property hfile
  refine ⟨?_, (tidy_object hfile).level_eq⟩
  rw [object, hproperty.sights_braces]
  have hopen : ((Sketch.empty.add 0 (.code '\x7b')).add 1 .hidden).openBrackets ≠ [] :=
    List.cons_ne_nil _ _
  rw [sketch, Sketch.run, Sketch.run, Sketch.run_append,
    Sketch.run_inside hopen hproperty.level_eq]
  rfl

section Separated

variable {z first : Text} {rest : List Text} (hz : partsOf z = first :: rest)

include hz

theorem partsOf_comma_append : partsOf (", ".toList ++ z) = [] :: (" ".toList ++ first) :: rest := by
  have hcomma : Tidy ", ".toList := tidy_of_all (by decide)
  have hparts : partsOf ", ".toList = [[]] ++ [" ".toList] := by rfl
  exact partsOf_append (hcomma.sights_append z) hcomma.level_eq hparts hz

theorem partsOf_blank_append : partsOf (" ".toList ++ z) = (" ".toList ++ first) :: rest := by
  have hblank : Tidy " ".toList := tidy_of_all (by decide)
  have hparts : partsOf " ".toList = [] ++ [" ".toList] := by rfl
  exact partsOf_append (hblank.sights_append z) hblank.level_eq hparts hz

end Separated

/-- The parts of further arguments are those arguments. -/
theorem reads_furtherArguments (hfile : file.getLast? ≠ some Text.backslash) (n : Nat) :
    Forall₂ Reads (partsOf (furtherArguments n file line)) (added n file line) := by
  induction n with
  | zero =>
    have hparts : partsOf (object file line) = [object file line] :=
      partsOf_eq_singleton (sketch_object hfile).1
    show Forall₂ Reads (partsOf (object file line)) _
    rw [hparts]
    exact .cons (reads_self _) .nil
  | succ n ih =>
    obtain ⟨first, rest, hfurther⟩ := List.exists_cons_of_ne_nil
      (partsOf_ne_nil (furtherArguments n file line))
    have hplaceholder : Tidy placeholder := tidy_of_all (by decide)
    have hsingle : partsOf placeholder = [] ++ [placeholder] := by rfl
    have hparts : partsOf (furtherArguments (n + 1) file line) =
        placeholder :: (" ".toList ++ first) :: rest := by
      rw [furtherArguments_succ]
      exact partsOf_append (hplaceholder.sights_append _) hplaceholder.level_eq hsingle
        (partsOf_comma_append hfurther)
    rw [hfurther] at ih
    rw [hparts]
    show Forall₂ Reads _ (placeholder :: added n file line)
    generalize added n file line = arguments at ih ⊢
    cases ih with
    | cons hfirst hrest =>
      exact .cons (reads_self placeholder) (.cons (hfirst.after trivia_blank) hrest)

theorem addition_ne_nil (afterComma : Bool) (n : Nat) (file : Text) (line : Int) :
    addition afterComma n file line ≠ [] := by
  cases afterComma <;> exact List.cons_ne_nil _ _

/-- No comma ends a list after an addition. -/
theorem exists_tally_addition (hfile : file.getLast? ≠ some Text.backslash) (afterComma : Bool)
    (n : Nat) {t : Tally} (ht : t.depth = 0) :
    ∃ commas, (sights (addition afterComma n file line)).foldl Tally.add t =
      ⟨0, commas, true, false⟩ := by
  have hlevel : level t.depth (sights (separator afterComma)) = some 0 := by
    rw [ht]
    exact (tidy_separator afterComma).level_eq
  rw [addition, (tidy_separator afterComma).sights_append, List.foldl_append]
  exact ⟨_, foldl_add_furtherArguments hfile n (Tally.foldl_add_depth hlevel)⟩

/-- The parts of an argument list after an addition: those of the list, and the arguments that are
added. A comma at the end of the list starts the first one of them. -/
theorem exists_partsOf_addition (hfile : file.getLast? ≠ some Text.backslash) {base : Int} {t : Text}
    (hend : (readingAt t t.length).InCode) (hlevel : level 0 (sights t) = some 0) (n : Nat) :
    ∃ parts, Forall₂ Reads parts (added n file line) ∧
      partsOf (t ++ addition (ArgumentLayout.ofText base t).trailing n file line) =
        (if (ArgumentLayout.ofText base t).trailing then (partsOf t).dropLast else partsOf t) ++
          parts := by
  obtain ⟨first, rest, hfurther⟩ := List.exists_cons_of_ne_nil
    (partsOf_ne_nil (furtherArguments n file line))
  have hreads : Forall₂ Reads (first :: rest) (added n file line) :=
    hfurther ▸ reads_furtherArguments hfile n
  have hsights : ∀ afterComma, sights (t ++ addition afterComma n file line) =
      sights t ++ sights (addition afterComma n file line) := fun afterComma =>
    sights_append_of_tidy hend (tidy_addition hfile afterComma n) (addition_ne_nil _ _ _ _)
  generalize added n file line = arguments at hreads ⊢
  cases hreads with
  | cons hfirst hrest =>
    cases htrailing : (ArgumentLayout.ofText base t).trailing with
    | false =>
      -- the addition brings the comma that ends the last argument
      refine ⟨(" ".toList ++ first) :: rest, .cons (hfirst.after trivia_blank) hrest, ?_⟩
      obtain ⟨front, last, hsplit⟩ : ∃ front last, partsOf t = front ++ [last] :=
        ⟨_, _, (List.dropLast_concat_getLast (partsOf_ne_nil t)).symm⟩
      have hparts := partsOf_append (hsights false) hlevel hsplit (partsOf_comma_append hfurther)
      rw [List.append_nil] at hparts
      rw [hparts, if_neg Bool.false_ne_true, hsplit, List.append_assoc]
      rfl
    | true =>
      -- the part after the last comma was none, and becomes the first argument that is added
      obtain ⟨front, gap, hsplit, hgap⟩ := trivia_of_trailing hend htrailing
      refine ⟨(gap ++ (" ".toList ++ first)) :: rest,
        .cons ((hfirst.after trivia_blank).after hgap) hrest, ?_⟩
      rw [if_pos rfl, hsplit, List.dropLast_concat]
      exact partsOf_append (hsights true) hlevel hsplit (partsOf_blank_append hfurther)

/-- **The arguments after an addition** are the ones before it, and those that are added. -/
theorem exists_arguments_addition (hfile : file.getLast? ≠ some Text.backslash)
    {list list' : ArgumentList} (hend : (readingAt list.text list.text.length).InCode)
    (hlevel : level 0 (sights list.text) = some 0) (hne : list.layout.isEmpty = false) {n : Nat}
    (htext : list'.text = list.text ++ addition list.layout.trailing n file line) :
    ∃ parts, list'.arguments = list.arguments ++ parts ∧
      Forall₂ Reads parts (added n file line) := by
  obtain ⟨parts, hreads, hparts⟩ :=
    @exists_partsOf_addition file line hfile (list.openParen + 1) _ hend hlevel n
  have hdepth : (tally (sights list.text)).depth = 0 := Tally.foldl_add_depth hlevel
  obtain ⟨commas, htally⟩ := @exists_tally_addition file line hfile list.layout.trailing n _ hdepth
  have htidy : Tidy (addition list.layout.trailing n file line) := tidy_addition hfile _ n
  have hsights := sights_append_of_tidy hend htidy (addition_ne_nil _ _ _ _)
  have htally' : tally (sights list'.text) = ⟨0, commas, true, false⟩ := by
    rw [htext, hsights, tally, List.foldl_append]
    exact htally
  refine ⟨parts, ?_, hreads⟩
  rw [ArgumentList.arguments_of_tally htally', htext, ArgumentList.arguments, hne,
    ArgumentList.parts_eq]
  exact hparts

end Stamp
end SourceStamp
