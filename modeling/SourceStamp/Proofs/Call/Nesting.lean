import SourceStamp.Proofs.Call.Tally

/-!
# Nested brackets

- `isNested`: whether the brackets in code are properly nested.
- `exists_of_isNested`: what stands between a bracket and the one that closes it.
- `closingIn_of_isNested`: nested brackets do not change where a call ends.
- `level`: how many of them are open after a text, as long as none closes that is not open;
  `level_of_isNested`.
- `tally_insert`: what stands inside brackets adds no argument to a list.
- `NestedArguments`: the brackets in the arguments of a call all close.
  `nestedArguments_insert` keeps this, and `tally_take_insert` the number of the arguments.
-/

namespace SourceStamp

open Outline (isOpener isCloser)

/-- Whether a bracket closes another one. -/
def closes (opener closer : Char) : Bool :=
  (opener == '(' && closer == ')') || (opener == '[' && closer == ']') ||
    (opener == '{' && closer == '}')

/-- Whether the brackets in code are properly nested, when those of `opened` are still open, the
innermost first. -/
def isNested (opened : List Char) : List Sight → Bool
  | [] => opened.isEmpty
  | .code c :: l =>
    if isOpener c then isNested (c :: opened) l
    else if isCloser c then
      match opened with
      | [] => false
      | opener :: rest => closes opener c && isNested rest l
    else isNested opened l
  | _ :: l => isNested opened l

section Steps

variable {opened : List Char} {c : Char} (l : List Sight)

theorem isNested_opener (hc : isOpener c = true) :
    isNested opened (.code c :: l) = isNested (c :: opened) l := if_pos hc

theorem isNested_closer (hc : ¬ isOpener c = true) (hc' : isCloser c = true) (opener : Char) :
    isNested (opener :: opened) (.code c :: l) = (closes opener c && isNested opened l) :=
  (if_neg hc).trans (if_pos hc')

theorem isNested_stray (hc : ¬ isOpener c = true) (hc' : isCloser c = true) :
    isNested [] (.code c :: l) = false := (if_neg hc).trans (if_pos hc')

theorem isNested_other (hc : ¬ isOpener c = true) (hc' : ¬ isCloser c = true) :
    isNested opened (.code c :: l) = isNested opened l := (if_neg hc).trans (if_neg hc')

end Steps

/-- The number of open brackets after one more sight, unless that closes none of them. -/
def levelAfter (depth : Nat) : Sight → Option Nat
  | .code c =>
    if isOpener c then some (depth + 1)
    else if isCloser c then (if depth = 0 then none else some (depth - 1))
    else some depth
  | _ => some depth

/-- The number of open brackets after a text, `depth` being open before it, unless one closes that
is not open. -/
def level (depth : Nat) (l : List Sight) : Option Nat := l.foldlM levelAfter depth

theorem level_cons (depth : Nat) (s : Sight) (l : List Sight) :
    level depth (s :: l) = (levelAfter depth s).bind (level · l) := List.foldlM_cons

theorem level_append (depth : Nat) (x y : List Sight) :
    level depth (x ++ y) = (level depth x).bind (level · y) := List.foldlM_append

/-- Properly nested brackets all close. -/
theorem level_of_isNested {opened : List Char} {l : List Sight} (h : isNested opened l = true) :
    level opened.length l = some 0 := by
  fun_induction isNested opened l with
  | case1 opened => rw [List.isEmpty_iff.mp h]; rfl
  | case2 opened c l hc ih =>
    rw [level_cons, levelAfter, if_pos hc]
    exact ih h
  | case3 => cases h
  | case4 c l hc hc' opener rest ih =>
    rw [level_cons, levelAfter, if_neg hc, if_pos hc', List.length_cons,
      if_neg (Nat.succ_ne_zero _)]
    exact ih (Bool.and_eq_true_iff.mp h).2
  | case5 opened c l hc hc' ih =>
    rw [level_cons, levelAfter, if_neg hc, if_neg hc']
    exact ih h
  | case6 opened s l hs ih =>
    cases s with
    | hidden | text => exact ih h
    | code c => exact absurd rfl (hs c)

theorem isNested_of_hidden {l : List Sight} (hl : ∀ s ∈ l, s = .hidden) : isNested [] l = true := by
  induction l with
  | nil => rfl
  | cons s l ih =>
    obtain ⟨hs, hl⟩ := List.forall_mem_cons.mp hl
    rw [hs]
    exact ih hl

/-- A text that closes some open brackets leaves those around them to the text after it. -/
theorem isNested_append {opened : List Char} {l : List Sight} (h : isNested opened l = true)
    (outer : List Char) (m : List Sight) :
    isNested (opened ++ outer) (l ++ m) = isNested outer m := by
  fun_induction isNested opened l with
  | case1 opened => rw [List.isEmpty_iff.mp h]; rfl
  | case2 opened c l hc ih =>
    rw [List.cons_append, isNested_opener _ hc]
    exact ih h
  | case3 => cases h
  | case4 c l hc hc' opener rest ih =>
    obtain ⟨hcloses, hrest⟩ := Bool.and_eq_true_iff.mp h
    rw [List.cons_append, List.cons_append, isNested_closer _ hc hc', hcloses, Bool.true_and]
    exact ih hrest
  | case5 opened c l hc hc' ih =>
    rw [List.cons_append, isNested_other _ hc hc']
    exact ih h
  | case6 opened s l hs ih =>
    cases s with
    | hidden | text => exact ih h
    | code c => exact absurd rfl (hs c)

/-- **Matching**: an open bracket is closed by one of its kind, and the text in between is nested on
its own. -/
theorem exists_of_isNested {inner : List Char} {c : Char} {outer : List Char} {l : List Sight}
    (h : isNested (inner ++ c :: outer) l = true) :
    ∃ content d rest, l = content ++ .code d :: rest ∧ isNested inner content = true ∧
      closes c d = true ∧ isNested outer rest = true := by
  induction l generalizing inner with
  | nil =>
    have hnil := List.isEmpty_iff.mp h
    simp at hnil
  | cons s l ih =>
    cases s with
    | hidden | text =>
      obtain ⟨content, d, rest, rfl, hcontent, hd, hrest⟩ := ih h
      exact ⟨_ :: content, d, rest, rfl, hcontent, hd, hrest⟩
    | code e =>
      by_cases he : isOpener e = true
      · rw [isNested_opener _ he] at h
        obtain ⟨content, d, rest, rfl, hcontent, hd, hrest⟩ := @ih (e :: inner) h
        refine ⟨.code e :: content, d, rest, rfl, ?_, hd, hrest⟩
        exact (isNested_opener _ he).trans hcontent
      by_cases he' : isCloser e = true
      · cases inner with
        | nil =>
          -- all that was opened in between is closed, so this closes the bracket itself
          rw [List.nil_append, isNested_closer _ he he'] at h
          obtain ⟨hcloses, hrest⟩ := Bool.and_eq_true_iff.mp h
          exact ⟨[], e, l, rfl, rfl, hcloses, hrest⟩
        | cons opener inner =>
          rw [List.cons_append, isNested_closer _ he he'] at h
          obtain ⟨hcloses, hl⟩ := Bool.and_eq_true_iff.mp h
          obtain ⟨content, d, rest, rfl, hcontent, hd, hrest⟩ := ih hl
          refine ⟨.code e :: content, d, rest, rfl, ?_, hd, hrest⟩
          rw [isNested_closer _ he he', hcloses, hcontent]
          rfl
      · rw [isNested_other _ he he'] at h
        obtain ⟨content, d, rest, rfl, hcontent, hd, hrest⟩ := ih h
        refine ⟨.code e :: content, d, rest, rfl, ?_, hd, hrest⟩
        exact (isNested_other _ he he').trans hcontent

/-- A nested text does not change which parenthesis closes: those it closes were open before it. -/
theorem closingIn_of_isNested {opened : List Char} {l : List Sight} (h : isNested opened l = true)
    (depth : Nat) (m : List Sight) :
    closingIn (depth + opened.count '(') (l ++ m) = (closingIn depth m).map (· + l.length) := by
  have hstep : ∀ {l : List Sight} (o : Option Nat),
      (o.map (· + l.length)).map (· + 1) = o.map (· + (l.length + 1)) := fun o => by
    cases o <;> rfl
  fun_induction isNested opened l with
  | case1 opened =>
    rw [List.isEmpty_iff.mp h]
    exact Option.map_id'.symm
  | case2 opened c l hc ih =>
    rw [List.cons_append, List.length_cons, ← hstep, ← ih h]
    by_cases hparen : c = '('
    · rw [hparen, closingIn_open, List.count_cons_self, Nat.add_assoc]
    · have hne : c ≠ ')' := by rintro rfl; exact absurd hc (by decide)
      rw [closingIn_cons_of_not_isParen (by simp [Sight.isParen, hparen, hne]),
        List.count_cons_of_ne hparen]
  | case3 => cases h
  | case4 c l hc hc' opener rest ih =>
    obtain ⟨hcloses, hrest⟩ := Bool.and_eq_true_iff.mp h
    -- the search counts a closer exactly when it has counted the opener
    have hiff : opener = '(' ↔ c = ')' := by
      simp only [closes, Bool.or_eq_true, Bool.and_eq_true, beq_iff_eq] at hcloses
      rcases hcloses with (⟨rfl, rfl⟩ | ⟨rfl, rfl⟩) | ⟨rfl, rfl⟩ <;> decide
    rw [List.cons_append, List.length_cons, ← hstep, ← ih hrest]
    by_cases hparen : c = ')'
    · rw [hiff.mpr hparen, hparen, List.count_cons_self, ← Nat.add_assoc, closingIn_close_succ]
    · have hne : c ≠ '(' := by rintro rfl; exact hc (by decide)
      rw [closingIn_cons_of_not_isParen (by simp [Sight.isParen, hparen, hne]),
        List.count_cons_of_ne (mt hiff.mp hparen)]
  | case5 opened c l hc hc' ih =>
    have hne : c ≠ '(' := by rintro rfl; exact hc (by decide)
    have hne' : c ≠ ')' := by rintro rfl; exact hc' (by decide)
    rw [List.cons_append, List.length_cons, ← hstep, ← ih h,
      closingIn_cons_of_not_isParen (by simp [Sight.isParen, hne, hne'])]
  | case6 opened s l hs ih =>
    have hparen : s.isParen = false := by
      cases s with
      | hidden | text => rfl
      | code c => exact absurd rfl (hs c)
    rw [List.cons_append, List.length_cons, ← hstep, ← ih h, closingIn_cons_of_not_isParen hparen]

/-- With more brackets open around a text, as many more are open after it. -/
theorem levelAfter_add {depth e : Nat} {s : Sight} (h : levelAfter depth s = some e) (n : Nat) :
    levelAfter (depth + n) s = some (e + n) := by
  cases s with
  | hidden | text => exact congrArg (Option.map (· + n)) h
  | code c =>
    simp only [levelAfter] at h ⊢
    repeat' split at h
    all_goals simp_all
    all_goals omega

theorem level_add {depth e : Nat} {l : List Sight} (h : level depth l = some e) (n : Nat) :
    level (depth + n) l = some (e + n) := by
  induction l generalizing depth with
  | nil => exact congrArg (Option.map (· + n)) h
  | cons s l ih =>
    rw [level_cons] at h ⊢
    obtain ⟨d, hd, h⟩ := Option.bind_eq_some_iff.mp h
    rw [levelAfter_add hd]
    exact ih h

/-- A text whose brackets all close can be put in anywhere. -/
theorem level_insert {x : List Sight} (hx : level 0 x = some 0) (depth : Nat) (u w : List Sight) :
    level depth (u ++ (x ++ w)) = level depth (u ++ w) := by
  rw [level_append, level_append]
  congr 1
  funext d
  have hd := level_add hx d
  rw [Nat.zero_add] at hd
  rw [level_append, hd]
  rfl

namespace Tally

variable {t : Tally}

theorem add_depth {s : Sight} {e : Nat} (h : levelAfter t.depth s = some e) :
    (t.add s).depth = e := by
  cases s with
  | hidden | text => exact Option.some.inj h
  | code c =>
    simp only [levelAfter] at h
    unfold add
    repeat' split at h
    all_goals simp_all
    split <;> simp_all

/-- The tally has as many brackets open as there are. -/
theorem foldl_add_depth {l : List Sight} {e : Nat} (h : level t.depth l = some e) :
    (l.foldl add t).depth = e := by
  induction l generalizing t with
  | nil => exact Option.some.inj h
  | cons s l ih =>
    rw [level_cons] at h
    obtain ⟨d, hd, h⟩ := Option.bind_eq_some_iff.mp h
    rw [← add_depth hd] at h
    exact ih h

theorem add_commas_of_depth {s : Sight} (h : 0 < t.depth) : (t.add s).commas = t.commas := by
  have hne : t.depth ≠ 0 := Nat.ne_of_gt h
  cases s with
  | hidden | text => rfl
  | code c =>
    unfold add
    repeat' split
    all_goals first | rfl | next hcomma => exact absurd hcomma.2 hne

/-- Inside brackets no comma counts. -/
theorem foldl_add_commas {l : List Sight} {depth e : Nat} (h : level depth l = some e)
    (hdepth : depth < t.depth) : (l.foldl add t).commas = t.commas := by
  induction l generalizing t depth with
  | nil => rfl
  | cons s l ih =>
    rw [level_cons] at h
    obtain ⟨d, hd, h⟩ := Option.bind_eq_some_iff.mp h
    obtain ⟨n, hn⟩ := Nat.exists_eq_add_of_lt hdepth
    have hadd := @add_depth t s (d + (n + 1)) (by rw [hn, Nat.add_assoc]; exact levelAfter_add hd _)
    rw [List.foldl_cons, ih h (by omega)]
    exact add_commas_of_depth (by omega)

/-- After a character of code it does not matter whether anything was seen before, nor what. -/
theorem add_code_congr {t' : Tally} (hdepth : t.depth = t'.depth) (hcommas : t.commas = t'.commas)
    (c : Char) : t.add (.code c) = t'.add (.code c) := by
  unfold add
  rw [hdepth, hcommas]

end Tally

/-- **What stands inside brackets adds no argument**: a text whose brackets all close, put in where
some bracket is open, leaves the tally after the next character of code as it is. -/
theorem tally_insert {u x w : List Sight} {c : Char} {depth : Nat} (hx : level 0 x = some 0)
    (hu : level 0 u = some (depth + 1)) :
    tally (u ++ (x ++ .code c :: w)) = tally (u ++ .code c :: w) := by
  have hdepth : (tally u).depth = depth + 1 := Tally.foldl_add_depth hu
  have hx' : level (tally u).depth x = some (tally u).depth := by
    have := level_add hx (tally u).depth
    rwa [Nat.zero_add] at this
  have hadd := Tally.add_code_congr (Tally.foldl_add_depth hx')
    (@Tally.foldl_add_commas (tally u) _ _ _ hx (by omega)) c
  rw [tally, tally, List.foldl_append, List.foldl_append, List.foldl_append, List.foldl_cons,
    List.foldl_cons]
  exact congrArg (w.foldl Tally.add) hadd

/-! ## Arguments up to their end -/

/-- What a text shows after an opening parenthesis: up to the one that closes it, all brackets
close. -/
def NestedArguments (l : List Sight) : Prop :=
  ∀ n, closingIn 0 l = some n → level 0 (l.take n) = some 0

/-- Up to an offset past `u`, a text that stands after `u` is taken as a whole. -/
theorem take_insert (u x w : List Sight) (i : Nat) :
    (u ++ (x ++ w)).take (u.length + i + x.length) = u ++ (x ++ w.take i) := by
  rw [Nat.add_assoc, Nat.add_comm i, List.take_length_add_append, List.take_length_add_append]

variable {u x w : List Sight}

/-- Arguments stay nested when a text without parentheses whose brackets all close is put in. -/
theorem nestedArguments_insert (hparen : ∀ s ∈ x, s.isParen = false) (hx : level 0 x = some 0)
    (h : NestedArguments (u ++ w)) : NestedArguments (u ++ (x ++ w)) := by
  intro n hn
  rw [closingIn_insert hparen] at hn
  obtain ⟨m, hm, rfl⟩ := Option.map_eq_some_iff.mp hn
  have hlevel := h m hm
  split
  · next hlt =>
    rw [List.take_append_of_le_length (Nat.le_of_lt hlt)] at hlevel ⊢
    exact hlevel
  · next hge =>
    obtain ⟨i, rfl⟩ := Nat.exists_eq_add_of_le (Nat.le_of_not_lt hge)
    rw [List.take_length_add_append] at hlevel
    rw [take_insert, level_insert hx]
    exact hlevel

/-- A call that ends elsewhere than at the closing bracket before which the text is put in has as
many arguments with it as without. -/
theorem tally_take_insert {c : Char} (hc : isOpener c = false ∧ isCloser c = true)
    (hx : level 0 x = some 0) {n : Nat} (hn : n ≠ u.length)
    (hlevel : level 0 ((u ++ .code c :: w).take n) = some 0) :
    tally ((u ++ (x ++ .code c :: w)).take (if n < u.length then n else n + x.length)) =
      tally ((u ++ .code c :: w).take n) := by
  rcases Nat.lt_or_gt_of_ne hn with hlt | hgt
  · rw [if_pos hlt, List.take_append_of_le_length (Nat.le_of_lt hlt),
      List.take_append_of_le_length (Nat.le_of_lt hlt)]
  · obtain ⟨i, rfl⟩ := Nat.exists_eq_add_of_lt hgt
    rw [Nat.add_assoc, List.take_length_add_append, List.take_succ_cons, level_append] at hlevel
    obtain ⟨depth, hu, hlevel⟩ := Option.bind_eq_some_iff.mp hlevel
    -- the bracket closes another one, so one is open before it
    cases depth with
    | zero =>
      rw [level_cons, levelAfter, if_neg (by simp [hc.1]), if_pos hc.2, if_pos rfl] at hlevel
      cases hlevel
    | succ depth =>
      rw [if_neg (by omega), Nat.add_assoc u.length, take_insert, List.take_length_add_append,
        List.take_succ_cons]
      exact tally_insert hx hu

/-- So has a text whose brackets all close, with or without what stands inside some of them. -/
theorem tally_insert_of_level {c : Char} (hc : isOpener c = false ∧ isCloser c = true)
    (hx : level 0 x = some 0) (hlevel : level 0 (u ++ .code c :: w) = some 0) :
    tally (u ++ (x ++ .code c :: w)) = tally (u ++ .code c :: w) := by
  have hlength : u.length < (u ++ Sight.code c :: w).length := by simp
  have htally := @tally_take_insert u x w c hc hx _ (Nat.ne_of_gt hlength)
    (by rwa [List.take_length])
  rw [if_neg (Nat.not_lt_of_gt hlength), List.take_length, List.take_of_length_le] at htally
  · exact htally
  · simp only [List.length_append, List.length_cons]
    omega

end SourceStamp
