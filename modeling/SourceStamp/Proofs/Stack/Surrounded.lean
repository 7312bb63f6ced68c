import SourceStamp.Proofs.Stack.Written

/-!
# Blanks around a line

Blanks before a line have no say in its frame. Blanks after it are taken off before the two unmarked
forms are tried, but the keyword form has to match with them.

- `Frame.IsMargin`: blanks that may stand around a line.
- `Frame.form?_surrounded`: the form of a line with blanks around it.
- `Frame.eq_none_of_keywordForm?`: no numbers are found in a keyword form that ends in blanks.
- `Frame.parse_surrounded`: when a line keeps its frame.
-/

namespace SourceStamp
namespace Frame

open Text (isBlank)

/-- Blanks that do not end a line. -/
structure IsMargin (t : Text) : Prop where
  isBlank_of_mem : ∀ c ∈ t, isBlank c = true
  isLine : IsLine t

instance (t : Text) : Decidable (IsMargin t) :=
  decidable_of_iff (t.all isBlank = true ∧ IsLine t)
    ⟨fun h => ⟨List.all_eq_true.mp h.1, h.2⟩, fun h => ⟨List.all_eq_true.mpr h.1, h.2⟩⟩

section Surrounded

variable {l before after : Text}

/-! ## The form of a surrounded line -/

theorem keywordForm?_append_left (h : ∀ c ∈ before, isBlank c = true) :
    keywordForm? (before ++ l) = keywordForm? l := by
  rw [← keywordForm?_stripStart, Text.stripStart_append_left h, keywordForm?_stripStart]

theorem form?_surrounded (hl : IsLine l) (hbefore : IsMargin before) (hafter : IsMargin after) :
    form? (before ++ l ++ after) =
      (keywordForm? (l ++ after)).or (unmarkedForm? (Text.strip l)) := by
  have hline : IsLine (before ++ l ++ after) :=
    isLine_append.mpr ⟨isLine_append.mpr ⟨hbefore.isLine, hl⟩, hafter.isLine⟩
  rw [form?_eq hline, Text.strip_surrounded hbefore.isBlank_of_mem hafter.isBlank_of_mem,
    List.append_assoc, keywordForm?_append_left hbefore.isBlank_of_mem]

/-- Blanks after a line do not make the word `at` of it. -/
theorem hasKeyword_of_append (hafter : ∀ c ∈ after, isBlank c = true)
    (h : HasKeyword (l ++ after)) : HasKeyword l := by
  obtain ⟨r, hr, hblank⟩ := h
  have hletter : ∀ {c : Char}, isBlank c = false → ∀ {t : Text}, after ≠ c :: t := by
    rintro c hc t rfl
    rw [hafter c List.mem_cons_self] at hc
    cases hc
  have hne : Text.stripStart l ≠ [] := by
    intro hnil
    have hall := List.forall_mem_append.mpr ⟨Text.stripStart_eq_nil_iff.mp hnil, hafter⟩
    rw [Text.stripStart_eq_nil_iff.mpr hall] at hr
    cases hr
  rw [Text.stripStart_append hne] at hr
  cases hstart : Text.stripStart l with
  | nil => exact absurd hstart hne
  | cons a s =>
    rw [hstart, List.cons_append, List.cons.injEq] at hr
    obtain ⟨rfl, hr⟩ := hr
    cases s with
    | nil => exact absurd hr (hletter (by decide))
    | cons t s =>
      rw [List.cons_append, List.cons.injEq] at hr
      obtain ⟨rfl, rfl⟩ := hr
      refine ⟨s, hstart, ?_⟩
      cases s with
      | nil => rfl
      | cons b s => exact hblank

/-! ## The keyword form with blanks after it -/

theorem getLast?_append_blanks (hafter : ∀ c ∈ after, isBlank c = true) (hne : after ≠ []) :
    (l ++ after).getLast?.any isBlank = true := by
  rw [List.getLast?_append_of_ne_nil l hne, List.getLast?_eq_some_getLast hne]
  exact hafter _ (List.getLast_mem hne)

/-- Numbers do not end in a blank, so in a keyword form that does there is none. -/
theorem eq_none_of_keywordForm? (hafter : ∀ c ∈ after, isBlank c = true) (hne : after ≠ [])
    {name : Option Text} {place : Option Location}
    (h : keywordForm? (l ++ after) = some (name, place)) : place = none := by
  cases place with
  | none => rfl
  | some p =>
    exfalso
    obtain ⟨start, c, u, heq, -, -, hplace⟩ := exists_of_keywordForm?_place h
    obtain ⟨-, rest, rfl, hnumbers⟩ := exists_of_place? hplace
    have hrest : rest ≠ [] := by
      rintro rfl
      cases (colons_of_looseNumbers? hnumbers).1
    have hlast := getLast?_append_blanks (l := l) hafter hne
    have hsplit : start ++ c :: (p.path ++ rest) = (start ++ c :: p.path) ++ rest := by
      rw [List.append_assoc, List.cons_append]
    rw [heq, hsplit, List.getLast?_append_of_ne_nil _ hrest, List.getLast?_eq_some_getLast hrest,
      Option.any_some] at hlast
    rcases mem_of_looseNumbers? hnumbers _ (List.getLast_mem hrest) with hc | hc | hc
    · rw [hc] at hlast
      cases hlast
    · rw [hc] at hlast
      cases hlast
    · rw [Text.isBlank_of_isDigitLike (Text.isDigitLike_of_isDecimal hc)] at hlast
      cases hlast

/-- A place without a path that does not end in a closing parenthesis holds none. -/
theorem notMem_of_isOpaque {u : Text} (h : isOpaque u = true) (hlast : u.getLast? ≠ some ')') :
    ')' ∉ u := by
  have hcut : u = u.takeWhile (· != ')') ++ u.drop (u.takeWhile (· != ')')).length :=
    (List.prefix_iff_eq_append.mp (List.takeWhile_prefix _)).symm
  rw [isOpaque, Bool.and_eq_true] at h
  rcases Bool.or_eq_true_iff.mp h.2 with hclosed | hclosed
  · rw [List.isEmpty_iff.mp hclosed, List.append_nil] at hcut
    rw [hcut]
    intro hmem
    exact absurd (List.mem_takeWhile_imp hmem) (by decide)
  · rw [hcut, beq_iff_eq.mp hclosed, List.getLast?_concat] at hlast
    exact absurd rfl hlast

/-- What comes after the last closing parenthesis of a closed line are the blanks. -/
theorem mem_of_closed {start u : Text} {c : Char} (h : l ++ after = start ++ c :: u)
    (hl : l.getLast? = some ')') (hc : c ≠ ')') (hu : ')' ∉ u) : ')' ∈ start ∧ c ∈ after := by
  obtain ⟨m, rfl⟩ := List.getLast?_eq_some_iff.mp hl
  rcases List.append_eq_append_iff.mp h with ⟨d, rfl, rfl⟩ | ⟨d, hd, hcut⟩
  · simp
  · cases d using List.reverseRecOn with
    | nil =>
      rw [List.append_nil] at hd
      rw [List.nil_append] at hcut
      rw [← hd, ← hcut]
      simp
    | append_singleton d e _ =>
      rw [← List.append_assoc] at hd
      obtain ⟨-, he⟩ := List.append_inj' hd rfl
      cases he
      have hmem : ')' ∈ c :: u := by
        rw [hcut]
        simp
      rcases List.mem_cons.mp hmem with hmem | hmem
      · exact absurd hmem.symm hc
      · exact absurd hmem hu

/-- A line of the keyword form cannot have blanks after its closing parenthesis. -/
theorem keywordForm?_closed (hl : l.getLast? = some ')') (hafter : ∀ c ∈ after, isBlank c = true)
    (hne : after ≠ []) : keywordForm? (l ++ after) = none := by
  rw [Option.eq_none_iff_forall_ne_some]
  rintro ⟨name, place⟩ h
  obtain rfl := eq_none_of_keywordForm? hafter hne h
  have hlast := getLast?_append_blanks (l := l) hafter hne
  -- a place that is not read has no closing parenthesis, since the line ends with a blank
  have hplain : ∀ {start u : Text} {c : Char}, l ++ after = start ++ c :: u →
      place? u = some none → ')' ∉ u := by
    intro start u c hcut hplace
    have hopaque := isOpaque_of_place? hplace
    refine notMem_of_isOpaque hopaque fun hparen => ?_
    have hu : u ≠ [] := by
      rintro rfl
      cases hparen
    rw [hcut, List.getLast?_append_of_ne_nil _ (List.cons_ne_nil _ _),
      List.getLast?_cons_of_ne_nil hu, hparen] at hlast
    cases hlast
  obtain ⟨lead, b, r, hcut, hlead, hb, hform⟩ := exists_of_keywordForm? h
  rcases exists_of_functionAndPlace? hform with ⟨-, hplace⟩ | ⟨start, u, rfl, hplace⟩
  · -- no closing parenthesis stands before the place
    have hb' : b ≠ ')' := by
      rintro rfl
      cases hb
    obtain ⟨hparen, -⟩ := mem_of_closed hcut hl hb' (hplain hcut hplace)
    rcases hlead.forall_mem _ hparen with h | h | h <;> cases h
  · -- no opening parenthesis stands after the last closing one
    have hcut' : l ++ after = (lead ++ b :: start) ++ '(' :: u := by
      rw [hcut, List.append_assoc, List.cons_append]
    obtain ⟨-, hopening⟩ := mem_of_closed hcut' hl (by decide) (hplain hcut' hplace)
    cases hafter _ hopening

/-- A line that ends in a closing parenthesis is of neither unmarked form. -/
theorem unmarkedForm?_closed (hl : l.getLast? = some ')') :
    unmarkedForm? (Text.strip l) = none := by
  rw [Option.eq_none_iff_forall_ne_some]
  rintro ⟨name, place⟩ h
  obtain ⟨l', start, rest, -, hstrip, hnumbers, -⟩ := exists_of_unmarkedForm? h
  have hparen := paren_notMem_of_strictNumbers? hnumbers
  have hrest : rest ≠ [] := by
    rintro rfl
    cases hnumbers
  obtain ⟨before, after, hcut, -, hafter⟩ := Text.exists_eq_strip l
  have hnil : after = [] := by
    by_contra hne
    have hlast := getLast?_append_blanks (l := before ++ Text.strip l) hafter hne
    rw [← hcut, hl] at hlast
    cases hlast
  rw [hcut, hnil, List.append_nil, hstrip, ← List.append_assoc, ← List.append_assoc,
    List.getLast?_append_of_ne_nil _ hrest] at hl
  exact hparen (List.mem_of_getLast? hl)

/-! ## Frames of surrounded lines -/

theorem shown?_eq (line : Text) :
    shown? line = (form? line).map fun form => ofValues form.1 form.2 := rfl

/-- The same text stands before a path if as many numbers follow it to the end of a line. -/
theorem start_eq_of_count_colon {start start' path rest rest' : Text}
    (h : start ++ (path ++ rest) = start' ++ (path ++ rest')) (hhead : rest.head? = some ':')
    (hhead' : rest'.head? = some ':') (hcount : rest.count ':' = rest'.count ':') :
    start = start' := by
  rw [← List.append_assoc, ← List.append_assoc] at h
  rw [eq_of_count_colon h hhead hhead' hcount] at h
  exact List.append_cancel_right (List.append_cancel_right h)

/-- A line of the keyword form would be another frame in an unmarked form: there the path starts
where the line does or after an at sign, and in the keyword form after a blank or a parenthesis. -/
theorem unmarkedForm?_ne {form : Option Text × Option Location} (h : keywordForm? l = some form) :
    (unmarkedForm? (Text.strip l)).map (fun form => ofValues form.1 form.2) ≠
      some (ofValues form.1 form.2) := by
  intro hsame
  obtain ⟨⟨name', place'⟩, hunmarked, heq⟩ := Option.map_eq_some_iff.mp hsame
  obtain ⟨p', start', rest', rfl, hstrip, hstrict, hstart'⟩ := exists_of_unmarkedForm? hunmarked
  obtain ⟨name, place⟩ := form
  cases place with
  | none => cases congrArg Frame.filePath heq
  | some p =>
    have hpath : p'.path = p.path := Option.some.inj (congrArg Frame.filePath heq)
    have hcolumn : p'.column.map value = p.column.map value := congrArg Frame.column heq
    obtain ⟨start, c, u, hcut, hword, hc, hplace⟩ := exists_of_keywordForm?_place h
    obtain ⟨-, rest, rfl, hloose⟩ := exists_of_place? hplace
    obtain ⟨hhead, hcount⟩ := colons_of_looseNumbers? hloose
    obtain ⟨hhead', hcount'⟩ := colons_of_looseNumbers? (looseNumbers?_of_strictNumbers? hstrict).1
    obtain ⟨before, after, hl, hbefore, hafter⟩ := Text.exists_eq_strip l
    have hends : (before ++ start') ++ (p.path ++ (rest' ++ after)) =
        (start ++ [c]) ++ (p.path ++ rest) := by
      calc (before ++ start') ++ (p.path ++ (rest' ++ after))
          = before ++ (start' ++ (p'.path ++ rest')) ++ after := by simp [hpath]
        _ = start ++ c :: (p.path ++ rest) := by rw [← hstrip, ← hl, hcut]
        _ = (start ++ [c]) ++ (p.path ++ rest) := by simp
    -- the frames are the same, so there are as many numbers in one reading as in the other
    have hlength : p'.column.toList.length = p.column.toList.length := by
      simpa only [Option.toList_map, List.length_map] using
        congrArg (fun column => column.toList.length) hcolumn
    have hcolons : (rest' ++ after).count ':' = rest.count ':' := by
      have hnone : after.count ':' = 0 :=
        List.count_eq_zero.mpr fun hcolon => by cases hafter _ hcolon
      rw [List.count_append, hnone, hcount', hcount, hlength]
    have hhead'' : (rest' ++ after).head? = some ':' := by
      rw [List.head?_append, hhead']
      rfl
    have hbegin : before ++ start' = start ++ [c] :=
      start_eq_of_count_colon hends hhead'' hhead hcolons
    rcases hstart' with rfl | hsign
    · have hmem : 'a' ∈ before := by
        rw [List.append_nil] at hbegin
        rw [hbegin]
        exact List.mem_append_left _ hword
      cases hbefore _ hmem
    · have hlast := congrArg List.getLast? hbegin
      rw [List.getLast?_concat, List.getLast?_append, hsign] at hlast
      cases hlast
      rcases hc with hc | hc <;> cases hc

/-- A line that is read keeps its frame exactly when it keeps its reading in the keyword form. -/
theorem parse_surrounded_iff (hl : IsLine l) (hbefore : IsMargin before) (hafter : IsMargin after)
    {g : Option Frame} (h : parse l = .ok g) :
    parse (before ++ l ++ after) = .ok g ↔ keywordForm? (l ++ after) = keywordForm? l := by
  have hform := form?_surrounded hl hbefore hafter
  have hform' := form?_eq hl
  constructor
  · intro hsurrounded
    by_cases hne : after = []
    · rw [hne, List.append_nil]
    have hsame : shown? (before ++ l ++ after) = shown? l :=
      (shown?_of_parse hsurrounded).trans (shown?_of_parse h).symm
    -- no unmarked form gives the frame of a keyword form, so both lines have one or none of them has
    rw [shown?_eq, shown?_eq, hform, hform'] at hsame
    cases hlater : keywordForm? (l ++ after) with
    | none =>
      cases hhere : keywordForm? l with
      | none => rfl
      | some form =>
        rw [hlater, hhere, Option.none_or, Option.some_or, Option.map_some] at hsame
        exact absurd hsame (unmarkedForm?_ne hhere)
    | some form =>
      obtain ⟨name, place⟩ := form
      -- before blanks a keyword form names no place
      obtain rfl := eq_none_of_keywordForm? hafter.isBlank_of_mem hne hlater
      cases hhere : keywordForm? l with
      | none =>
        have hother := unmarkedForm?_ne hlater
        have hnil : IsMargin [] := by decide
        have hstrip : Text.strip (l ++ after) = Text.strip l :=
          Text.strip_surrounded hnil.isBlank_of_mem hafter.isBlank_of_mem
        rw [hlater, hhere, Option.none_or, Option.some_or, Option.map_some] at hsame
        rw [hstrip] at hother
        exact absurd hsame.symm hother
      | some form' =>
        obtain ⟨name', place'⟩ := form'
        rw [hlater, hhere, Option.some_or, Option.some_or, Option.map_some, Option.map_some,
          Option.some.injEq] at hsame
        have hname : name = name' := congrArg Frame.functionName hsame
        have hpath : none = place'.map (·.path) := congrArg Frame.filePath hsame
        rw [hname, Option.map_eq_none_iff.mp hpath.symm]
  · intro hkeyword
    rw [← h]
    exact parse_congr (by rw [hform, hform', hkeyword])

/-- **What blanks around a line do to its frame.** Before the line they do nothing. After it they do
nothing either to a line of an unmarked form; one of the keyword form is left with its frame exactly
when the keyword form does not come out otherwise with them, so that it loses its place if it has
one, and all if it ends in a closing parenthesis. -/
theorem parse_surrounded (hl : IsLine l) (hbefore : IsMargin before) (hafter : IsMargin after) :
    parse (before ++ l) = parse l ∧
    (¬ HasKeyword l → parse (before ++ l ++ after) = parse l) ∧
    (∀ g, parse l = .ok g →
      (parse (before ++ l ++ after) = .ok g ↔ keywordForm? (l ++ after) = keywordForm? l)) ∧
    (after ≠ [] →
      (∀ name place g, keywordForm? l = some (name, some place) → parse l = .ok g →
        parse (before ++ l ++ after) ≠ .ok g) ∧
      (l.getLast? = some ')' → parse (before ++ l ++ after) = .ok none)) := by
  have hform := form?_surrounded hl hbefore hafter
  have hiff := fun g h => parse_surrounded_iff (g := g) hl hbefore hafter h
  have hblanks := hafter.isBlank_of_mem
  refine ⟨?_, ?_, hiff, fun hne => ⟨?_, ?_⟩⟩
  · have hnil : IsMargin [] := by decide
    have hleft := form?_surrounded hl hbefore hnil
    rw [List.append_nil, List.append_nil, ← form?_eq hl] at hleft
    exact parse_congr hleft
  · intro hkeyword
    refine parse_congr ?_
    rw [hform, form?_eq hl, keywordForm?_eq_none hkeyword,
      keywordForm?_eq_none (mt (hasKeyword_of_append hblanks) hkeyword)]
  · intro name place g hhere h hsurrounded
    have hlater := (hiff g h).mp hsurrounded
    rw [hhere] at hlater
    cases eq_none_of_keywordForm? hblanks hne hlater
  · intro hclosed
    rw [parse_eq, hform, keywordForm?_closed hclosed hblanks hne, unmarkedForm?_closed hclosed]
    rfl

end Surrounded

/-- A line of the keyword form. -/
def closedLine : Text := "at f (a:1:2)".toList

/-- A line of the bare form. -/
def bareLine : Text := "a:1:2".toList

theorem parse_surrounded_tab :
    parse (['\t'] ++ closedLine) = .ok (some ⟨some ['f'], some ['a'], some 1, some 2⟩) ∧
      parse (['\t'] ++ closedLine ++ [' ']) = .ok none ∧
      parse (['\t'] ++ bareLine ++ [' ']) = .ok (some ⟨none, some ['a'], some 1, some 2⟩) := by
  have htab : IsMargin ['\t'] := by decide
  have hspace : IsMargin [' '] := by decide
  have hread : parse closedLine = .ok (some ⟨some ['f'], some ['a'], some 1, some 2⟩) := rfl
  obtain ⟨hbefore, -, -, hafter⟩ := parse_surrounded (l := closedLine) (by decide) htab hspace
  obtain ⟨-, hbare, -⟩ := parse_surrounded (l := bareLine) (by decide) htab hspace
  have hkeyword : ¬ HasKeyword bareLine := by
    rintro ⟨r, hr, -⟩
    cases hr
  exact ⟨hbefore.trans hread, (hafter (List.cons_ne_nil _ _)).2 rfl, hbare hkeyword⟩

end Frame
end SourceStamp
