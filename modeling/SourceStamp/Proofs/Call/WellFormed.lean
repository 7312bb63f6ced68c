import SourceStamp.Proofs.Call.Separated
import SourceStamp.Proofs.Call.Supplant

/-!
# Well-formed argument lists

- `IsArgument`: a text that can stand in an argument list without touching the arguments around it.
- `IsLiteral`: a text that is one object literal, with blanks and comments around it.
- `joined`, `placed`, `Literals`: the text of arguments that are joined by commas, where they stand
  in it, and which of them are object literals.
- `IsArgument.wholePairs_eq_nil`, `IsLiteral.wholePairs_eq`: an argument is taken for an object
  literal exactly when it is one.
- `ArgumentList.find_joined`: the analysis of a call with well-formed arguments.
-/

namespace SourceStamp

/-- A well-formed argument: it is code again at its end, something in it is neither blank nor
comment, its brackets in code are properly nested, and no comma in code stands outside all of
them. -/
structure IsArgument (t : Text) : Prop where
  classify_end : classify t t.length = .code
  exists_significant : ∃ p, isSignificantAt t p = true
  nested : isNested [] (sights t) = true
  comma_inside : ∀ p, CodeAt t p ',' → level 0 ((sights t).take p) ≠ some 0

/-- A text that is one pair of braces around properly nested brackets, with nothing but blanks and
comments before and after it. -/
structure IsLiteral (t : Text) (opened closed : Nat) : Prop where
  opened_at : CodeAt t opened '\x7b'
  closed_at : CodeAt t closed '\x7d'
  lt : opened < closed
  nested : isNested [] (((sights t).drop (opened + 1)).take (closed - (opened + 1))) = true
  gap_before : Gap t 0 opened
  gap_after : Gap t (closed + 1) t.length

/-- Texts that are joined by a comma and a blank, with the places where they start. -/
def placed (start : Nat) : List Text → List (Nat × Text)
  | [] => []
  | t :: ts => (start, t) :: placed (start + t.length + 2) ts

/-- The object literals among placed arguments, in order, each by the places of its braces. -/
inductive Literals : List (Nat × Text) → List (Int × Int) → Prop where
  /-- No argument. -/
  | nil : Literals [] []
  /-- An argument that is an object literal. -/
  | literal {start opened closed : Nat} {t : Text} {args : List (Nat × Text)}
      {objects : List (Int × Int)} (h : IsLiteral t opened closed) (hargs : Literals args objects) :
    Literals ((start, t) :: args)
      (((start + opened : Nat), (start + closed : Nat)) :: objects)
  /-- An argument of another kind. -/
  | other {start : Nat} {t : Text} {args : List (Nat × Text)} {objects : List (Int × Int)}
      (h : ∀ opened closed, ¬ IsLiteral t opened closed) (hargs : Literals args objects) :
    Literals ((start, t) :: args) objects

/-! ## Arguments -/

/-- What is significant is seen. -/
theorem isSignificantAt_iff {t : Text} {p : Nat} :
    isSignificantAt t p = true ↔ ∃ s, (sights t)[p]? = some s ∧ s ≠ .hidden := by
  constructor
  · intro h
    rw [getElem?_sights]
    cases hc : t[p]? with
    | none =>
      rw [isSignificantAt, hc] at h
      cases h
    | some c =>
      rw [isSignificantAt, hc, Option.any_some, Bool.and_eq_true, Bool.not_eq_true'] at h
      have hsig : Visit.isSignificant ⟨0, c, t[p + 1]?, (readingAt t p).state⟩ = true := h.2
      refine ⟨_, rfl, ?_⟩
      show (readingAt t p).sight c t[p + 1]? ≠ .hidden
      rw [Reading.sight, h.1, if_neg Bool.false_ne_true, Visit.sight, if_pos hsig]
      split <;> simp
  · rintro ⟨s, hs, hne⟩
    by_contra h
    exact hne (eq_hidden_of_not_isSignificantAt (Bool.eq_false_iff.mpr h) hs)

theorem lt_length_of_isSignificantAt {t : Text} {p : Nat} (h : isSignificantAt t p = true) :
    p < t.length := by
  obtain ⟨s, hs, -⟩ := isSignificantAt_iff.mp h
  exact length_sights t ▸ (List.getElem?_eq_some_iff.mp hs).1

namespace IsLiteral

variable {t : Text} {opened closed : Nat}

/-- What an object literal shows. -/
theorem exists_sights (h : IsLiteral t opened closed) : ∃ d content rest,
    sights t = d ++ .code '\x7b' :: (content ++ .code '\x7d' :: rest) ∧ d.length = opened ∧
      d.length + 1 + content.length = closed ∧ (∀ s ∈ d, s = .hidden) ∧
      isNested [] content = true ∧ ∀ s ∈ rest, s = .hidden := by
  have hlt := h.lt
  have hclosed : closed < (sights t).length := (length_sights t).symm ▸ h.closed_at.lt
  have hfirst := eq_append_between (Nat.zero_le opened) (h.opened_at.sights_eq (.inl (by decide)))
  have hget : ((sights t).drop (opened + 1))[closed - (opened + 1)]? = some (.code '\x7d') := by
    rw [List.getElem?_drop, Nat.add_sub_cancel' hlt]
    exact h.closed_at.sights_eq (.inr (by decide))
  have hsecond := eq_append_between (Nat.zero_le (closed - (opened + 1))) hget
  rw [List.take_zero, List.nil_append, List.drop_zero, Nat.sub_zero] at hfirst hsecond
  rw [hsecond] at hfirst
  refine ⟨_, _, _, hfirst, ?_, ?_, ?_, h.nested, ?_⟩
  · rw [List.length_take]
    omega
  · rw [List.length_take, List.length_take, List.length_drop]
    omega
  · exact fun s hs => h.gap_before.eq_hidden hs
  · intro s hs
    have hplace : opened + 1 + (closed - (opened + 1) + 1) = closed + 1 := by omega
    have hlength : ((sights t).drop (closed + 1)).length = t.length - (closed + 1) := by
      rw [List.length_drop, length_sights]
    rw [List.drop_drop, hplace] at hs
    exact h.gap_after.eq_hidden (by rwa [← hlength, List.take_length])

theorem wholePairs_eq (h : IsLiteral t opened closed) :
    (sketch (sights t)).wholePairs = [(opened, closed)] := by
  obtain ⟨d, content, rest, hsights, rfl, rfl, hd, hcontent, hrest⟩ := h.exists_sights
  rw [hsights, Sketch.sketch_brackets hd (by decide) (level_of_isNested hcontent) hrest, if_pos rfl]
  rfl

/-- A text that shows an object literal is one. -/
theorem of_sights {d content rest : List Sight}
    (h : sights t = d ++ .code '\x7b' :: (content ++ .code '\x7d' :: rest))
    (hd : ∀ s ∈ d, s = .hidden) (hcontent : isNested [] content = true)
    (hrest : ∀ s ∈ rest, s = .hidden) :
    IsLiteral t d.length (d.length + 1 + content.length) := by
  have hget : (sights t)[d.length]? = some (.code '\x7b') := by
    rw [h, List.getElem?_append_right (Nat.le_refl _), Nat.sub_self]
    rfl
  have hdrop : (sights t).drop (d.length + 1) = content ++ .code '\x7d' :: rest := by
    rw [h, List.drop_length_add_append]
    rfl
  have hdrop' : (sights t).drop (d.length + 1 + content.length + 1) = rest := by
    rw [Nat.add_assoc, ← List.drop_drop, hdrop, List.drop_length_add_append]
    rfl
  have hget' : (sights t)[d.length + 1 + content.length]? = some (.code '\x7d') := by
    rw [← List.getElem?_drop, hdrop, List.getElem?_append_right (Nat.le_refl _), Nat.sub_self]
    rfl
  refine ⟨(sights_eq_code_iff.mp hget).1, (sights_eq_code_iff.mp hget').1, by omega, ?_, ?_, ?_⟩
  · rw [hdrop, Nat.add_sub_cancel_left, List.take_left]
    exact hcontent
  · intro p hp _
    obtain ⟨s, hs, hshown⟩ := isSignificantAt_iff.mp hp
    refine Nat.le_of_not_lt fun hlt => hshown (hd s ?_)
    rw [h, List.getElem?_append_left hlt] at hs
    exact List.mem_of_getElem? hs
  · intro p hp hle
    obtain ⟨s, hs, hshown⟩ := isSignificantAt_iff.mp hp
    obtain ⟨q, rfl⟩ := Nat.exists_eq_add_of_le hle
    rw [← List.getElem?_drop, hdrop'] at hs
    exact absurd (hrest s (List.mem_of_getElem? hs)) hshown

end IsLiteral

/-- A comma in code is seen. -/
theorem codeAt_comma_iff {t : Text} {p : Nat} :
    CodeAt t p ',' ↔ (sights t)[p]? = some (.code ',') := by
  rw [sights_eq_code_iff]
  exact ⟨fun h => ⟨h, h.isSignificantAt (by decide) (by decide)⟩, fun h => h.1⟩

/-- Whether a text is a well-formed argument can be computed from what it shows. -/
theorem isArgument_iff {t : Text} : IsArgument t ↔
    (readingAt t t.length).state = .code ∧ (∃ p < t.length, isSignificantAt t p = true) ∧
      isNested [] (sights t) = true ∧ ∀ p < t.length, (sights t)[p]? = some (.code ',') →
        level 0 ((sights t).take p) ≠ some 0 := by
  rw [← classify_eq]
  constructor
  · rintro ⟨hend, ⟨p, hp⟩, hnested, hcomma⟩
    exact ⟨hend, ⟨p, lt_length_of_isSignificantAt hp, hp⟩, hnested,
      fun p _ hp => hcomma p (codeAt_comma_iff.mpr hp)⟩
  · rintro ⟨hend, ⟨p, -, hp⟩, hnested, hcomma⟩
    exact ⟨hend, ⟨p, hp⟩, hnested, fun p hp => hcomma p hp.lt (codeAt_comma_iff.mp hp)⟩

instance (t : Text) : Decidable (IsArgument t) := decidable_of_iff _ isArgument_iff.symm

namespace IsArgument

variable {t : Text}

theorem level_eq (h : IsArgument t) : level 0 (sights t) = some 0 := level_of_isNested h.nested

theorem openBrackets_eq (h : IsArgument t) : (sketch (sights t)).openBrackets = [] :=
  Sketch.openBrackets_eq_nil h.level_eq

/-- An argument has no commas outside all brackets. -/
theorem commas_eq (h : IsArgument t) : (sketch (sights t)).commas = [] := by
  refine List.eq_nil_iff_forall_not_mem.mpr fun p hp => ?_
  obtain ⟨hget, hopen⟩ := Sketch.comma_spec hp
  refine h.comma_inside p (sights_eq_code_iff.mp hget).1 ?_
  have hlevel := h.level_eq
  rw [← List.take_append_drop p (sights t), level_append] at hlevel
  obtain ⟨depth, hdepth, -⟩ := Option.bind_eq_some_iff.mp hlevel
  have hlength : (sketch ((sights t).take p)).openBrackets.length = depth :=
    Sketch.length_run_openBrackets (k := .empty) hdepth
  rw [hdepth, ← hlength, hopen]
  rfl

/-- An argument that is no object literal is not taken for one. -/
theorem wholePairs_eq_nil (h : IsArgument t)
    (hno : ∀ opened closed, ¬ IsLiteral t opened closed) :
    (sketch (sights t)).wholePairs = [] := by
  refine List.eq_nil_iff_forall_not_mem.mpr fun b hb => ?_
  obtain ⟨d, content, rest, hsights, hd, hcontent, hrest⟩ :=
    Sketch.exists_of_mem_wholePairs h.nested h.commas_eq hb
  exact hno _ _ (.of_sights hsights hd hcontent hrest)

/-- An argument leads from code to code, before everything that completes no comment opener. -/
theorem read_inCode (h : IsArgument t) {r : Reading} (hr : r.InCode) {following : Option Char}
    (h1 : following ≠ some '/') (h2 : following ≠ some '*') : (r.read following t).InCode := by
  have hend : (readingAt t t.length).InCode :=
    inCode_of_classify h.classify_end (by simp [Reading.IsSecond])
  rw [readingAt, List.take_length] at hend
  have hread := (Reading.start_inCode.agree hr).read t[t.length]? t
  rw [Reading.read_change_following h1 h2 (hread.inCode hend)]
  exact hread.inCode hend

end IsArgument

/-! ## Joined arguments -/

/-- The text of arguments that are joined by commas. -/
def joined (args : List Text) : Text := Text.join ", ".toList args

theorem joined_cons (t : Text) {args : List Text} (hne : args ≠ []) :
    joined (t :: args) = t ++ (", ".toList ++ joined args) := by
  obtain ⟨u, args, rfl⟩ := List.exists_cons_of_ne_nil hne
  exact List.append_assoc ..

@[simp] theorem length_placed (start : Nat) (args : List Text) :
    (placed start args).length = args.length := by
  induction args generalizing start with
  | nil => rfl
  | cons t args ih => rw [placed, List.length_cons, ih, List.length_cons]

theorem placed_eq_nil_iff {start : Nat} {args : List Text} :
    placed start args = [] ↔ args = [] := by
  cases args <;> simp [placed]

section Joined

variable {args : List Text} (h : ∀ t ∈ args, IsArgument t)

include h

/-- Joined arguments lead from code to code, before everything that completes no comment opener. -/
theorem read_joined_inCode {r : Reading} (hr : r.InCode) {following : Option Char}
    (h1 : following ≠ some '/') (h2 : following ≠ some '*') :
    (r.read following (joined args)).InCode := by
  induction args generalizing r with
  | nil => exact hr
  | cons t args ih =>
    obtain ⟨ht, hargs⟩ := List.forall_mem_cons.mp h
    by_cases hne : args = []
    · rw [hne]
      exact ht.read_inCode hr h1 h2
    · have hcomma : Reading.Closed ", ".toList := Reading.closed_of_plain (by decide)
      rw [joined_cons t hne, Reading.read_append, Reading.read_append]
      exact ih hargs (hcomma _ _ (ht.read_inCode hr nofun nofun))

end Joined

/-- What a first argument shows, and the arguments after it. -/
theorem sights_joined_cons {t : Text} (ht : IsArgument t) {args : List Text} (hne : args ≠ []) :
    sights (joined (t :: args)) =
      sights t ++ .code ',' :: .hidden :: sights (joined args) := by
  have hcomma : Reading.Closed ", ".toList := Reading.closed_of_plain (by decide)
  have hshown : sights ", ".toList = [.code ',', .hidden] := rfl
  have hread : (Reading.start.read (", ".toList ++ joined args).head? t).InCode :=
    ht.read_inCode Reading.start_inCode (by simp) (by simp)
  rw [joined_cons t hne, sights_append hread, sights_append_of_closed hcomma, hshown]
  rfl

/-- A first argument puts its comma before those of the others. -/
theorem commas_joined_cons {t : Text} (ht : IsArgument t) {args : List Text} (hne : args ≠ []) :
    (sketch (sights (joined (t :: args)))).commas =
      (sketch (sights (joined args))).commas.map (t.length + 2 + ·) ++ [t.length] := by
  rw [sights_joined_cons ht hne, Sketch.sketch_separated ht.openBrackets_eq, length_sights]
  show _ ++ t.length :: (sketch (sights t)).commas = _
  rw [ht.commas_eq]
  rfl

/-- It puts its pairs of braces before those of the others likewise. -/
theorem wholePairs_joined_cons {t : Text} (ht : IsArgument t) (args : List Text) :
    (sketch (sights (joined (t :: args)))).wholePairs =
      (sketch (sights (joined args))).wholePairs.map
        (Prod.map (t.length + 2 + ·) (t.length + 2 + ·)) ++ (sketch (sights t)).wholePairs := by
  by_cases hne : args = []
  · rw [hne]
    rfl
  · rw [sights_joined_cons ht hne, Sketch.wholePairs_separated ht.openBrackets_eq, length_sights]

section Joined

variable {args : List Text} (h : ∀ t ∈ args, IsArgument t)

include h

theorem isNested_joined : isNested [] (sights (joined args)) = true := by
  induction args with
  | nil => rfl
  | cons t args ih =>
    obtain ⟨ht, hargs⟩ := List.forall_mem_cons.mp h
    by_cases hne : args = []
    · rw [hne]
      exact ht.nested
    · rw [sights_joined_cons ht hne]
      exact (isNested_append ht.nested [] _).trans (ih hargs)

/-- The commas outside all brackets are the ones that join the arguments. -/
theorem commas_joined (start : Nat) :
    (sketch (sights (joined args))).commas.reverse.map (start + ·) =
      (placed start args).dropLast.map fun a => a.1 + a.2.length := by
  induction args generalizing start with
  | nil => rfl
  | cons t args ih =>
    obtain ⟨ht, hargs⟩ := List.forall_mem_cons.mp h
    by_cases hne : args = []
    · rw [hne]
      show (sketch (sights t)).commas.reverse.map _ = _
      rw [ht.commas_eq]
      rfl
    · have hrest := ih hargs (start + t.length + 2)
      have hne' : placed (start + t.length + 2) args ≠ [] := mt placed_eq_nil_iff.mp hne
      rw [commas_joined_cons ht hne, placed, List.dropLast_cons_of_ne_nil hne', List.map_cons,
        ← hrest, List.reverse_append, ← List.map_reverse]
      simp only [List.reverse_singleton, List.singleton_append, List.map_cons, List.map_map]
      congr 2
      funext p
      simp only [Function.comp_apply]
      omega

/-- The pairs of braces that count are the object literals among the arguments. -/
theorem literals_joined (start : Nat) :
    Literals (placed start args) ((sketch (sights (joined args))).wholePairs.reverse.map
      fun b => (((start + b.1 : Nat) : Int), ((start + b.2 : Nat) : Int))) := by
  induction args generalizing start with
  | nil => exact .nil
  | cons t args ih =>
    obtain ⟨ht, hargs⟩ := List.forall_mem_cons.mp h
    have hrest := ih hargs (start + t.length + 2)
    have hmoved : ((sketch (sights (joined args))).wholePairs.map
        (Prod.map (t.length + 2 + ·) (t.length + 2 + ·))).reverse.map
          (fun b => (((start + b.1 : Nat) : Int), ((start + b.2 : Nat) : Int))) =
        (sketch (sights (joined args))).wholePairs.reverse.map
          fun b => (((start + t.length + 2 + b.1 : Nat) : Int),
            ((start + t.length + 2 + b.2 : Nat) : Int)) := by
      rw [← List.map_reverse, List.map_map]
      congr 1
      funext b
      simp only [Function.comp_apply, Prod.map, Nat.add_assoc]
    rw [wholePairs_joined_cons ht, List.reverse_append, List.map_append, hmoved]
    by_cases hliteral : ∃ opened closed, IsLiteral t opened closed
    · obtain ⟨opened, closed, hliteral⟩ := hliteral
      rw [hliteral.wholePairs_eq]
      exact .literal hliteral hrest
    · have hno : ∀ opened closed, ¬ IsLiteral t opened closed := fun opened closed hl =>
        hliteral ⟨opened, closed, hl⟩
      rw [ht.wholePairs_eq_nil hno]
      exact .other hno hrest

/-- After every comma outside all brackets something significant follows. -/
theorem exists_significant_joined (hne : args ≠ []) :
    ∃ p, isSignificantAt (joined args) p = true ∧
      ∀ c ∈ (sketch (sights (joined args))).commas, c < p := by
  induction args with
  | nil => exact absurd rfl hne
  | cons t args ih =>
    obtain ⟨ht, hargs⟩ := List.forall_mem_cons.mp h
    by_cases hne' : args = []
    · obtain ⟨p, hp⟩ := ht.exists_significant
      rw [hne']
      refine ⟨p, hp, fun c hc => ?_⟩
      have hcommas : c ∈ (sketch (sights t)).commas := hc
      rw [ht.commas_eq] at hcommas
      cases hcommas
    · obtain ⟨p, hp, hlt⟩ := ih hargs hne'
      obtain ⟨s, hs, hshown⟩ := isSignificantAt_iff.mp hp
      refine ⟨t.length + 2 + p, isSignificantAt_iff.mpr ⟨s, ?_, hshown⟩, ?_⟩
      · rw [sights_joined_cons ht hne', List.getElem?_append_right (by rw [length_sights]; omega),
          length_sights, Nat.add_assoc, Nat.add_sub_cancel_left, Nat.add_comm 2]
        exact hs
      · rw [commas_joined_cons ht hne', List.forall_mem_append, List.forall_mem_map]
        exact ⟨fun c hc => Nat.add_lt_add_left (hlt c hc) _, by simp; omega⟩

theorem isEmpty_joined (base : Int) :
    (ArgumentLayout.ofText base (joined args)).isEmpty = args.isEmpty := by
  by_cases hne : args = []
  · rw [hne, ArgumentLayout.isEmpty_eq]
    rfl
  · obtain ⟨p, hp, -⟩ := exists_significant_joined h hne
    rw [List.isEmpty_eq_false_iff.mpr hne, Bool.eq_false_iff]
    intro he
    have hle := gap_of_isEmpty he p hp (Nat.zero_le p)
    exact absurd (lt_length_of_isSignificantAt hp) (Nat.not_lt_of_le hle)

theorem trailing_joined (base : Int) :
    (ArgumentLayout.ofText base (joined args)).trailing = false := by
  by_cases hne : args = []
  · rw [hne, ArgumentLayout.trailing_eq]
    rfl
  · obtain ⟨p, hp, hcommas⟩ := exists_significant_joined h hne
    rw [Bool.eq_false_iff]
    intro htrailing
    obtain ⟨c, commas, hc, -, hgap, -⟩ := exists_of_trailing htrailing
    have hlt : c < p := hcommas c (hc ▸ List.mem_cons_self)
    exact absurd (lt_length_of_isSignificantAt hp) (Nat.not_lt_of_le (hgap p hp hlt))

/-- The commas of the layout are the ones that join the arguments. -/
theorem layout_commas_joined (base : Nat) :
    (ArgumentLayout.ofText base (joined args)).commas =
      (placed base args).dropLast.map fun a => ((a.1 + a.2.length : Nat) : Int) := by
  have hplaces := congrArg (List.map fun c : Nat => (c : Int)) (commas_joined h base)
  rw [List.map_map, List.map_map] at hplaces
  rw [ArgumentLayout.commas_eq]
  simp only [← Int.natCast_add]
  exact hplaces

/-- The object literals of the layout are those among the arguments. -/
theorem layout_objects_joined (base : Nat) :
    Literals (placed base args) ((ArgumentLayout.ofText base (joined args)).objects.map
      fun o => (o.openBrace, o.closeBrace)) := by
  rw [ArgumentLayout.objects_eq]
  simp only [← Int.natCast_add]
  exact literals_joined h base

theorem layout_count_joined (base : Nat) :
    (ArgumentLayout.ofText base (joined args)).count = args.length := by
  rw [ArgumentLayout.count_eq_commas, isEmpty_joined h, trailing_joined h,
    layout_commas_joined h, List.length_map, List.length_dropLast, length_placed]
  cases args <;> rfl

end Joined

/-! ## Calls -/

namespace ArgumentList

theorem drop_opened (before rest : Text) :
    (before ++ '(' :: rest).drop (before.length + 1) = rest :=
  List.drop_length_add_append 1

theorem closingParen_joined (before after : Text) {args : List Text}
    (h : ∀ t ∈ args, IsArgument t) :
    closingParen 0 (Scanner.ofCheckpoint (before ++ '(' :: (joined args ++ ')' :: after))
      ⟨before.length + 1, .code⟩) = some (before.length + 1 + (joined args).length) := by
  have hread : (Reading.start.read (')' :: after).head? (joined args)).InCode :=
    read_joined_inCode h Reading.start_inCode (by simp) (by simp)
  obtain ⟨rest, hparen⟩ : ∃ rest, sights (')' :: after) = .code ')' :: rest := ⟨_, rfl⟩
  have hclosing := closingIn_of_isNested (isNested_joined h) 0 (sights (')' :: after))
  rw [hparen, List.count_nil, Nat.add_zero, closingIn_close_zero, length_sights] at hclosing
  rw [Scanner.closingParen_eq, Scanner.visits_eq]
  have hagree : (Scanner.ofCheckpoint (before ++ '(' :: (joined args ++ ')' :: after))
      ⟨before.length + 1, .code⟩).reading.Agree Reading.start :=
    Reading.InCode.agree ⟨rfl, rfl⟩ Reading.start_inCode
  generalize (Scanner.ofCheckpoint (before ++ '(' :: (joined args ++ ')' :: after))
      ⟨before.length + 1, .code⟩).reading = r at hagree
  show closingAmong 0 (r.visits (before.length + 1) (List.drop (before.length + 1) _)) = _
  rw [drop_opened, closingAmong_visits, hagree.sights_eq]
  show (closingIn 0 (sights (joined args ++ ')' :: after))).map _ = _
  rw [sights_append hread, hparen, hclosing, Option.map_some, Option.map_some, Nat.zero_add]

/-- **Well-formed argument lists.** Between parentheses, arguments that are joined by commas are
told apart as they are: the call ends where they end, each of them is counted, the commas are the
ones that join them, none of which ends the list, and the object literals are those arguments that
are one. What stands before the call and after it does not matter. -/
theorem find_joined (before after : Text) {args : List Text} (h : ∀ t ∈ args, IsArgument t) :
    let list := find (before ++ '(' :: (joined args ++ ')' :: after)) before.length
    list.closeParen = some ((before.length + 1 + (joined args).length : Nat) : Int) ∧
      list.text = joined args ∧
      list.layout.isEmpty = args.isEmpty ∧
      list.layout.count = args.length ∧
      list.layout.commas = ((placed (before.length + 1) args).dropLast.map
        fun a => ((a.1 + a.2.length : Nat) : Int)) ∧
      list.layout.trailing = false ∧
      Literals (placed (before.length + 1) args)
        (list.layout.objects.map fun o => (o.openBrace, o.closeBrace)) := by
  intro list
  have hclose := closingParen_joined before after h
  have hlist : list = ⟨before.length, some ((before.length + 1 + (joined args).length : Nat) : Int),
      joined args⟩ := by
    show find _ _ = _
    rw [find_eq, hclose]
    dsimp only
    rw [drop_opened, Nat.add_sub_cancel_left, List.take_left]
  have hlayout : list.layout = .ofText (before.length + 1 : Nat) (joined args) := by
    rw [hlist]
    rfl
  refine ⟨by rw [hlist], by rw [hlist], ?_⟩
  rw [hlayout]
  exact ⟨isEmpty_joined h _, layout_count_joined h _, layout_commas_joined h _,
    trailing_joined h _, layout_objects_joined h _⟩

/-- A call and an object literal as arguments, with commas and brackets of their own. -/
theorem find_joined_two :
    let args := ["f(')', b)".toList, "\x7b x: [1, 2] \x7d /* y */".toList]
    let list := find ("g".toList ++ '(' :: (joined args ++ ')' :: ".h()".toList)) 1
    (∀ t ∈ args, IsArgument t) ∧ list.text = joined args ∧ list.layout.count = 2 ∧
      list.layout.commas = [11] ∧
      Literals (placed 2 args) (list.layout.objects.map fun o => (o.openBrace, o.closeBrace)) := by
  intro args list
  have h : ∀ t ∈ args, IsArgument t := by decide +kernel
  obtain ⟨-, htext, -, hcount, hcommas, -, hobjects⟩ :=
    find_joined "g".toList ".h()".toList h
  exact ⟨h, htext, hcount, hcommas, hobjects⟩

end ArgumentList
end SourceStamp
