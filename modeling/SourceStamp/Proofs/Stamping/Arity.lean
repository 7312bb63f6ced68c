import SourceStamp.Proofs.Call.Arguments
import SourceStamp.Proofs.Call.Joined
import SourceStamp.Proofs.Edit.Seam
import SourceStamp.Proofs.Stamping.Plan

/-!
# The arguments of a stamped call

When the edit of a call is applied on its own, the call has as many arguments as the table of stamps
promises, and the stamp is where the table says.

- `Edit.applyAll_singleton`: one edit fills a stretch of the source text.
- `Stamp.Takes`, `Stamp.Fulfils`: which calls take a stamp, and what becomes of their arguments.
- `Stamp.after_of_slot`: a call is found again after its edit.
- `Stamp.append_fulfils`, `Stamp.whole_fulfils`, `Stamp.join_fulfils`: the places where a stamp
  lands, and `Stamp.editFor_fulfils`: the edits of all kinds of calls.
- `call_fulfils`: the theorem, for the calls of a source text.
-/

namespace SourceStamp

open MonitoredCall (findAll)

/-! ## One edit -/

/-- One edit fills the stretch that it replaces. -/
theorem Edit.applyAll_singleton {source : Text} {e : Edit} {p q : Nat} (hp : e.position = p)
    (hq : e.stop = q) (hle : p ≤ q) (hlength : q ≤ source.length) :
    (applyAll source [e]).text = filled source p q e.insertText := by
  have hkept : kept source 0 [e] = [e] :=
    kept_of_inOrder ⟨by omega, by omega, trivial⟩
  have hbefore : slice source 0 (p : Int) = source.take p := by
    have hslice := @slice_eq source 0 p (Nat.zero_le p) (Nat.le_trans hle hlength)
    rwa [List.drop_zero, Nat.sub_zero] at hslice
  have hafter : slice source (q : Int) source.length = source.drop q := by
    rw [slice_eq hlength (Nat.le_refl _)]
    exact List.take_of_length_le (Nat.le_of_eq List.length_drop)
  rw [applyAll_eq, ordered, List.mergeSort_singleton, hkept, weave, weave, hp, hq, hbefore, hafter,
    filled]

/-- Braces around a text that fills a stretch in braces make no difference. -/
theorem filled_braces {t : Text} {p q : Nat} (hp : t[p]? = some '{') (hq : t[q]? = some '}')
    (x : Text) : filled t p (q + 1) ('{' :: (x ++ ['}'])) = filled t (p + 1) q x := by
  obtain ⟨hlt, hget⟩ := List.getElem?_eq_some_iff.mp hq
  rw [filled, filled, List.take_add_one, hp, List.drop_eq_getElem_cons hlt, hget]
  simp

/-- The arguments of a call after one edit. -/
def ArgumentList.after (source : Text) (opened : Nat) (e : Edit) : ArgumentList :=
  find (Edit.applyAll source [e]).text opened

namespace Stamp

open List (Forall₂)
open ArgumentList (after)

/-! ## Joined object literals -/

/-- What the stamp adds to the object literal that it joins. -/
def joining (o : ObjectLiteral) (file : Text) (line : Int) : Text :=
  separator (o.isEmpty || o.endsWithComma) ++ property file line

/-- The edit for that object literal, which may give way as a whole. -/
def joinEdit (o : ObjectLiteral) (file : Text) (line : Int) : Edit :=
  if o.isEmpty then .replace o.openBrace (o.closeBrace + 1) (object file line)
  else .insert o.contentEnd (separator o.endsWithComma ++ property file line)

theorem tidy_joining {file : Text} (hfile : file.getLast? ≠ some Text.backslash) (o : ObjectLiteral)
    (line : Int) : Tidy (joining o file line) :=
  (tidy_separator _).append (tidy_property hfile)

theorem joining_append_ne_nil (o : ObjectLiteral) (file : Text) (line : Int) (z : Text) :
    joining o file line ++ z ≠ [] := by
  unfold joining separator
  split <;> exact List.cons_ne_nil _ _

/-! ## What is promised -/

/-- Whether a call takes a stamp, by the number of its arguments. -/
def Takes (kind : CalleeKind) (list : ArgumentList) : Prop :=
  match kind with
  | .hook => True
  | .wrapper => list.layout.count = 1
  | .method => list.layout.count = 1 ∨ list.layout.count = 2

/-- The arguments of one list come first in another one, and those that are given come after
them. -/
def Extends (list list' : ArgumentList) (arguments : List Text) : Prop :=
  ∃ parts, list'.arguments = list.arguments ++ parts ∧ Forall₂ Reads parts arguments

/-- What becomes of the arguments of a call that takes a stamp. -/
def Fulfils (kind : CalleeKind) (list list' : ArgumentList) (file : Text) (line : Int) : Prop :=
  match kind with
  | .method =>
    list'.layout.count = 3 ∧
      Extends list list'
        (List.replicate (2 - list.layout.count) placeholder ++ [object file line])
  | .wrapper => list'.layout.count = 2 ∧ Extends list list' [object file line]
  | .hook =>
    if list.layout.isEmpty then list'.layout.count = 1 ∧ list'.arguments = [object file line]
    else
      match list.layout.lastObject? with
      | some o =>
        list'.layout.count = list.layout.count ∧
          JoinsObject list o list' (joining o file line)
      | none =>
        list'.layout.count = list.layout.count + 1 ∧ Extends list list' [object file line]

/-! ## Places of stamps -/

section Places

variable {source : Text} {opened closed : Nat} {file : Text} {line : Int}

/-- The arguments of a call end in code. -/
theorem inCode_end (hb : Balanced source opened closed) :
    (readingAt (ArgumentList.find source opened).text
      (ArgumentList.find source opened).text.length).InCode := by
  refine (hb.standsAt.agree (Nat.le_refl _)).inCode ?_
  rw [ArgumentList.length_text hb]
  exact hb.closed_spec.2.inCode

variable (hb : Balanced source opened closed) (hfile : file.getLast? ≠ some Text.backslash)

include hb

/-- A call is found again after an edit that fills a slot among its arguments. -/
theorem after_of_slot {i j : Nat} (h : Slot (ArgumentList.find source opened).text i j) {x : Text}
    (hx : Tidy x) (hne : x ≠ []) {e : Edit}
    (htext : (Edit.applyAll source [e]).text = filled source (opened + 1 + i) (opened + 1 + j) x) :
    (after source opened e).closeParen.isSome = true ∧ (after source opened e).openParen = opened ∧
      (after source opened e).text = filled (ArgumentList.find source opened).text i j x := by
  obtain ⟨⟨closed', hb'⟩, hfilled⟩ := h.balanced_filled hb hx hne
  rw [after, htext]
  refine ⟨?_, ?_, hfilled⟩
  · rw [ArgumentList.find_eq_some hb']
    rfl
  · rw [ArgumentList.find_eq_some hb']

section Pairs

variable {b : BracePair} (hpair : PairAt (ArgumentList.find source opened).text b)

include hb hpair

/-- An object literal of trivia gives way as a whole, and a stamp stands in its place. This is as if
the stamp were put between its braces. -/
theorem joinEdit_of_isEmpty (hempty : b.lastInside = b.opened) :
    (Edit.applyAll source [joinEdit (b.toObject (opened + 1)) file line]).text =
      filled source (opened + 1 + (b.lastInside + 1)) (opened + 1 + b.closed)
        (joining (b.toObject (opened + 1)) file line ++ " ".toList) := by
  have hshift := hb.standsAt.pairAt_shift hpair
  have hisEmpty : (b.toObject (opened + 1)).isEmpty = true := by
    simp [BracePair.toObject, hempty]
  have hlt := hpair.lastInside_lt
  have hobject : object file line =
      '{' :: ((joining (b.toObject (opened + 1)) file line ++ " ".toList) ++ ['}']) := by
    rw [joining, hisEmpty]
    show '{' :: (' ' :: property file line ++ [' ', '}']) = _
    simp [separator]
  have hopen : (b.toObject (opened + 1)).openBrace = ((opened + 1 + b.opened : Nat) : Int) := by
    simp only [BracePair.toObject]
    omega
  have hclose : (b.toObject (opened + 1)).closeBrace + 1 =
      ((opened + 1 + b.closed + 1 : Nat) : Int) := by
    simp only [BracePair.toObject]
    omega
  have hwhole := @Edit.applyAll_singleton source (.replace (b.toObject (opened + 1)).openBrace
    ((b.toObject (opened + 1)).closeBrace + 1) (object file line)) _ _ hopen
    ((Edit.stop_replace _ _ _).trans hclose) (by omega) hshift.closed_at.lt
  rw [joinEdit, hisEmpty, if_pos rfl, hwhole, hempty]
  show filled source _ _ (object file line) = _
  rw [hobject]
  exact filled_braces hshift.opened_at.get_eq hshift.closed_at.get_eq _

/-- In other object literals the stamp is inserted. -/
theorem joinEdit_of_not_isEmpty (hfilled : b.lastInside ≠ b.opened) :
    (Edit.applyAll source [joinEdit (b.toObject (opened + 1)) file line]).text =
      filled source (opened + 1 + (b.lastInside + 1)) (opened + 1 + (b.lastInside + 1))
        (joining (b.toObject (opened + 1)) file line) := by
  have hshift := hb.standsAt.pairAt_shift hpair
  have hisEmpty : (b.toObject (opened + 1)).isEmpty = false := by
    simp [BracePair.toObject, hfilled]
  have hinside : b.lastInside + 1 ≤ b.closed := hpair.lastInside_lt
  have hclosed : opened + 1 + b.closed < source.length := hshift.closed_at.lt
  have hplace : (b.toObject (opened + 1)).contentEnd =
      ((opened + 1 + (b.lastInside + 1) : Nat) : Int) := by
    simp only [BracePair.toObject]
    omega
  rw [joinEdit, joining, hisEmpty, if_neg Bool.false_ne_true]
  exact Edit.applyAll_singleton hplace ((Edit.stop_insert _ _).trans hplace) (Nat.le_refl _)
    (by omega)

end Pairs

include hfile

/-- **At the end of the list**: the arguments that are added come last. -/
theorem append_fulfils (hlevel : level 0 (sights (ArgumentList.find source opened).text) = some 0)
    (hne : (ArgumentList.find source opened).layout.isEmpty = false) (n : Nat) :
    let list := ArgumentList.find source opened
    let e := append closed list.layout (added n file line)
    (after source opened e).closeParen.isSome = true ∧
      (after source opened e).layout.count = list.layout.count + n + 1 ∧
      Extends list (after source opened e) (added n file line) := by
  intro list e
  have hend := inCode_end hb
  have htidy : Tidy (addition list.layout.trailing n file line) := tidy_addition hfile _ n
  have hadd : addition list.layout.trailing n file line ≠ [] := addition_ne_nil _ _ _ _
  have hclosed := ArgumentList.length_text hb
  obtain ⟨hclose, -, htext⟩ := after_of_slot hb (Slot.of_end hend) htidy hadd
    (Edit.applyAll_singleton (e := e) (by rw [hclosed]; rfl)
      (by rw [hclosed]; exact Edit.stop_insert _ _) (Nat.le_refl _)
      (by rw [hclosed]; exact Nat.le_of_lt hb.closed_spec.2.lt))
  rw [filled_end] at htext
  have hseen : (tally (sights list.text)).seen = true := by
    have hempty : list.layout.isEmpty = !(tally (sights list.text)).seen :=
      ArgumentLayout.isEmpty_eq _ _
    rw [hne] at hempty
    simpa using hempty.symm
  have htrailing : list.layout.trailing = (tally (sights list.text)).trailing :=
    ArgumentLayout.trailing_eq _ _
  have htally : tally (sights (after source opened e).text) =
      (sights (addition list.layout.trailing n file line)).foldl Tally.add
        (tally (sights list.text)) := by
    rw [htext, sights_append_of_tidy hend htidy hadd]
    exact List.foldl_append
  refine ⟨hclose, ?_, exists_arguments_addition hfile hend hlevel hne htext⟩
  calc
    (after source opened e).layout.count = (tally (sights (after source opened e).text)).count :=
      ArgumentLayout.count_eq _ _
    _ = (tally (sights list.text)).count + n + 1 := by
      rw [htally, htrailing]
      exact (count_addition hfile n (Tally.foldl_add_depth hlevel) hseen).2
    _ = list.layout.count + n + 1 := by rw [ArgumentList.layout, ArgumentLayout.count_eq]

/-- **In place of an empty list**: the stamp is the only argument. -/
theorem whole_fulfils (hempty : (ArgumentList.find source opened).layout.isEmpty = true) :
    let e := Edit.replace (opened + 1) closed (object file line)
    (after source opened e).closeParen.isSome = true ∧ (after source opened e).layout.count = 1 ∧
      (after source opened e).arguments = [object file line] := by
  intro e
  have hclosed := ArgumentList.length_text hb
  have hslot : Slot (ArgumentList.find source opened).text 0
      (ArgumentList.find source opened).text.length :=
    ⟨Nat.zero_le _, Nat.le_refl _, Reading.start_inCode, inCode_end hb, gap_of_isEmpty hempty⟩
  obtain ⟨hclose, -, htext⟩ := after_of_slot hb hslot (tidy_object hfile) (List.cons_ne_nil _ _)
    (Edit.applyAll_singleton (e := e) rfl (by rw [hclosed]; exact Edit.stop_replace _ _ _)
      (Nat.le_add_right _ _) (by rw [hclosed]; exact Nat.le_of_lt hb.closed_spec.2.lt))
  have hobject : (after source opened e).text = object file line := by
    rw [htext, filled, List.take_zero, List.drop_length, List.nil_append, List.append_nil]
  have htally : tally (sights (after source opened e).text) = ⟨0, 0, true, false⟩ := by
    rw [hobject]
    exact foldl_add_object hfile rfl
  refine ⟨hclose, ?_, ?_⟩
  · rw [ArgumentList.layout, ArgumentLayout.count_eq, htally]
    rfl
  · rw [ArgumentList.arguments_of_tally htally, hobject]
    exact partsOf_eq_singleton (sketch_object hfile).1

/-- **In the last object literal**: the stamp joins what stands in it. -/
theorem join_fulfils (hlevel : level 0 (sights (ArgumentList.find source opened).text) = some 0)
    {o : ObjectLiteral} (ho : (ArgumentList.find source opened).layout.lastObject? = some o) :
    let list := ArgumentList.find source opened
    let e := joinEdit o file line
    (after source opened e).closeParen.isSome = true ∧
      (after source opened e).layout.count = list.layout.count ∧
      JoinsObject list o (after source opened e) (joining o file line) := by
  intro list e
  obtain ⟨b, hpair, hb'⟩ := lastObject_at ho
  have hopen : list.openParen = opened := by
    show (ArgumentList.find source opened).openParen = opened
    rw [ArgumentList.find_eq_some hb]
  obtain rfl : o = b.toObject (opened + 1) := by rw [hb', hopen]
  -- the slot, and what the edit puts there
  obtain ⟨j, z, hle, hj, hcode, hz, hblank, htext⟩ : ∃ j z, b.lastInside < j ∧ j ≤ b.closed ∧
      (readingAt list.text j).InCode ∧ Trivia z ∧ Tidy z ∧
      (Edit.applyAll source [e]).text =
        filled source (opened + 1 + (b.lastInside + 1)) (opened + 1 + j)
          (joining (b.toObject (opened + 1)) file line ++ z) := by
    by_cases hempty : b.lastInside = b.opened
    · exact ⟨b.closed, " ".toList, hpair.lastInside_lt, Nat.le_refl _, hpair.closed_at.inCode,
        trivia_blank, tidy_of_all (by decide), joinEdit_of_isEmpty hb hpair hempty⟩
    · refine ⟨b.lastInside + 1, [], Nat.lt_succ_self _, hpair.lastInside_lt, hpair.inCode_succ, .nil,
        tidy_of_all rfl, ?_⟩
      rw [List.append_nil]
      exact joinEdit_of_not_isEmpty hb hpair hempty
  have hx : Tidy (joining (b.toObject (opened + 1)) file line ++ z) :=
    (tidy_joining hfile _ line).append hblank
  have hne := joining_append_ne_nil (b.toObject (opened + 1)) file line z
  obtain ⟨hclose, hopen', hafter⟩ :=
    after_of_slot hb (hpair.slot hle hj hcode) hx hne htext
  refine ⟨hclose, ?_, ?_⟩
  · rw [ArgumentList.layout, hopen', hafter, ArgumentList.layout, hopen]
    exact hpair.count_filled hle hj hcode hx hne _ hlevel
  · have hlast : list.layout.lastObject? = some (b.toObject (list.openParen + 1)) := by
      rw [hopen]
      exact ho
    have hjoins := hpair.joinsObject hle hj hcode hx hne hz hlast (hopen'.trans hopen.symm) hafter
    rwa [hopen] at hjoins

/-! ## All calls -/

omit hb hfile in
/-- A method takes a stamp exactly when it has one or two arguments. -/
theorem methodEdit?_eq {layout : ArgumentLayout}
    (hzero : layout.count = 0 ↔ layout.isEmpty = true) (close : Int) :
    methodEdit? close layout file line =
      if layout.count = 1 ∨ layout.count = 2 then
        some (append close layout (added (2 - layout.count) file line))
      else none := by
  -- what is refused is no argument, and three or more
  have hrefuses : (layout.isEmpty = true ∨ methodArity ≤ layout.count) ↔
      ¬ (layout.count = 1 ∨ layout.count = 2) := by
    rw [← hzero, methodArity]
    omega
  rw [methodEdit?]
  by_cases hcount : layout.count = 1 ∨ layout.count = 2
  · rw [if_pos hcount, if_neg (mt hrefuses.mp (not_not_intro hcount))]
    rfl
  · rw [if_neg hcount, if_pos (hrefuses.mpr hcount)]

/-- **The edits of calls** whose brackets are nested: each call that takes a stamp is found again
with it, and the other ones have no edit. -/
theorem editFor_fulfils (line : Int) (kind : CalleeKind)
    (hnested : isNested [] (sights (ArgumentList.find source opened).text) = true) :
    (Takes kind (ArgumentList.find source opened) → ∃ e,
      editFor kind (ArgumentList.find source opened) file line = some e ∧
      (after source opened e).closeParen.isSome = true ∧
      Fulfils kind (ArgumentList.find source opened) (after source opened e) file line) ∧
    (¬ Takes kind (ArgumentList.find source opened) →
      editFor kind (ArgumentList.find source opened) file line = none) := by
  have hlevel : level 0 (sights (ArgumentList.find source opened).text) = some 0 :=
    level_of_isNested hnested
  have hzero : (ArgumentList.find source opened).layout.count = 0 ↔
      (ArgumentList.find source opened).layout.isEmpty = true :=
    ArgumentLayout.count_eq_zero_iff
  have happend := @append_fulfils source opened closed file line hb hfile hlevel
  have hwhole := @whole_fulfils source opened closed file line hb hfile
  have hjoin := @join_fulfils source opened closed file line hb hfile hlevel
  rw [editFor_eq hb]
  generalize ArgumentList.find source opened = list at hzero happend hwhole hjoin ⊢
  dsimp only at happend hwhole hjoin
  have hne : list.layout.count ≠ 0 → list.layout.isEmpty = false := fun hcount =>
    Bool.eq_false_iff.mpr (mt hzero.mpr hcount)
  cases kind with
  | method =>
    dsimp only [Takes]
    rw [methodEdit?_eq hzero]
    refine ⟨fun hcount => ?_, fun hcount => if_neg hcount⟩
    obtain ⟨hclose, hcount', hextends⟩ := happend (hne (by omega)) (2 - list.layout.count)
    rw [if_pos hcount]
    exact ⟨_, rfl, hclose, by omega, hextends⟩
  | wrapper =>
    dsimp only [Takes, wrapperEdit?]
    refine ⟨fun hcount => ?_, fun hcount => if_neg hcount⟩
    obtain ⟨hclose, hcount', hextends⟩ := happend (hne (by omega)) 0
    rw [if_pos hcount]
    refine ⟨append closed list.layout (added 0 file line), rfl, hclose, ?_, hextends⟩
    omega
  | hook =>
    refine ⟨fun _ => ⟨_, rfl, ?_⟩, fun h => absurd trivial h⟩
    unfold hookEdit Fulfils
    cases hcase : list.layout.isEmpty with
    | true => exact hwhole hcase
    | false =>
      simp only [Bool.false_eq_true, if_false]
      cases hlast : list.layout.lastObject? with
      | none => exact happend hcase 0
      | some o => exact hjoin hlast

end Places

end Stamp

/-! ## The calls of a source text -/

/-- **The arguments of a stamped call.** Where a call of a source text opens in code, is balanced and
has nested brackets among its arguments, its edit on its own

- makes the stamp the third argument of a method with one or two arguments, after the ones it had
  and an undefined one if it had one only;
- makes it the second argument of a wrapper with a single one;
- makes it the only argument of a hook without arguments, joins the last object literal of a hook
  that has one, without another argument, and comes last for other hooks.

In all other cases there is no edit. The path that the stamp names must not end with a backslash. A
stamp with a line that is too long cannot be written, and there is an error in place of its edit. -/
theorem call_fulfils {names : MonitoredNames} {source : Text} {call : MonitoredCall}
    (h : call ∈ findAll source names) (hcode : classify source call.openParen = .code)
    (hclose : (ArgumentList.find source call.openParen).closeParen.isSome = true)
    (hnested : isNested [] (sights (ArgumentList.find source call.openParen).text) = true)
    {file : Text} (hfile : file.getLast? ≠ some Text.backslash) (line : Int) :
    (Stamp.Takes call.kind (ArgumentList.find source call.openParen) →
      (Text.isWritable line = true → ∃ e,
        Stamp.editFor? call.kind (ArgumentList.find source call.openParen) file line =
          .ok (some e) ∧
        (ArgumentList.after source call.openParen e).closeParen.isSome = true ∧
        Stamp.Fulfils call.kind (ArgumentList.find source call.openParen)
          (ArgumentList.after source call.openParen e) file line) ∧
      (Text.isWritable line = false →
        Stamp.editFor? call.kind (ArgumentList.find source call.openParen) file line =
          .error ⟨⟩)) ∧
    (¬ Stamp.Takes call.kind (ArgumentList.find source call.openParen) →
      Stamp.editFor? call.kind (ArgumentList.find source call.openParen) file line = .ok none) := by
  obtain ⟨close, hfind⟩ := Option.isSome_iff_exists.mp hclose
  have hopen := MonitoredCall.openParen_codeAt h hcode
  obtain ⟨closed, -, hb⟩ := ArgumentList.balanced_of_find hopen hfind
  obtain ⟨htakes, hnone⟩ := Stamp.editFor_fulfils hb hfile line call.kind hnested
  refine ⟨fun ht => ?_, fun ht => by rw [Stamp.editFor?, hnone ht]⟩
  obtain ⟨e, he, hclosed, hfulfils⟩ := htakes ht
  rw [Stamp.editFor?, he]
  refine ⟨fun hwritable => ⟨e, if_pos hwritable, hclosed, hfulfils⟩, fun hlong => ?_⟩
  exact if_neg (Bool.eq_false_iff.mp hlong)

/-- The stamp of a hook joins its object literal. -/
theorem call_fulfils_joining :
    ∃ call ∈ findAll "use(\x7ba\x7d)".toList .soleHook, ∃ e,
      Stamp.editFor? call.kind (ArgumentList.find "use(\x7ba\x7d)".toList call.openParen)
        "b".toList 1 = .ok (some e) ∧
      (ArgumentList.after "use(\x7ba\x7d)".toList call.openParen e).closeParen.isSome = true ∧
      Stamp.Fulfils call.kind (ArgumentList.find "use(\x7ba\x7d)".toList call.openParen)
        (ArgumentList.after "use(\x7ba\x7d)".toList call.openParen e) "b".toList 1 := by
  have hmem : (⟨"use".toList, .hook, 0, 4⟩ : MonitoredCall) ∈
      findAll "use(\x7ba\x7d)".toList .soleHook := by
    simp only [MonitoredCall.findAll_eq, Occurrence.isCall, classify_eq]
    decide +kernel
  refine ⟨_, hmem, ((call_fulfils hmem ?_ ?_ ?_ (by decide) 1).1 trivial).1 (by decide)⟩
  · rw [classify_eq]
    decide +kernel
  · simp only [ArgumentList.find, Scanner.closingParen_eq, Scanner.visits_eq]
    decide +kernel
  · simp only [ArgumentList.find, Scanner.closingParen_eq, Scanner.visits_eq]
    decide +kernel

/-- After a path that ends with a backslash the string literal in the stamp has no end for a reader.
Then neither has the object literal that the stamp joins. -/
theorem call_loses_object :
    ∃ call ∈ findAll "use(\x7ba\x7d)".toList .soleHook,
      classify "use(\x7ba\x7d)".toList call.openParen = .code ∧
      (ArgumentList.find "use(\x7ba\x7d)".toList call.openParen).closeParen.isSome = true ∧
      isNested [] (sights (ArgumentList.find "use(\x7ba\x7d)".toList call.openParen).text) = true ∧
      ∃ e, Stamp.editFor? call.kind (ArgumentList.find "use(\x7ba\x7d)".toList call.openParen)
          "b\\".toList 1 = .ok (some e) ∧
        (ArgumentList.after "use(\x7ba\x7d)".toList call.openParen e).closeParen = none ∧
        ¬ Stamp.Fulfils call.kind (ArgumentList.find "use(\x7ba\x7d)".toList call.openParen)
          (ArgumentList.after "use(\x7ba\x7d)".toList call.openParen e) "b\\".toList 1 := by
  have hmem : (⟨"use".toList, .hook, 0, 4⟩ : MonitoredCall) ∈
      findAll "use(\x7ba\x7d)".toList .soleHook := by
    simp only [MonitoredCall.findAll_eq, Occurrence.isCall, classify_eq]
    decide +kernel
  have hlist : ArgumentList.find "use(\x7ba\x7d)".toList 3 = ⟨3, some 7, "\x7ba\x7d".toList⟩ := by
    simp only [ArgumentList.find, Scanner.closingParen_eq, Scanner.visits_eq]
    decide +kernel
  have hlayout : (ArgumentList.find "use(\x7ba\x7d)".toList 3).layout =
      ⟨false, [], 1, false, [⟨4, 6, 6, false, false⟩]⟩ := by
    simp only [hlist, ArgumentList.layout, ArgumentLayout.ofText, Scanner.visits_eq]
    decide +kernel
  have hafter : ArgumentList.after "use(\x7ba\x7d)".toList 3
      (.insert 6 (", ".toList ++ Stamp.property "b\\".toList 1)) =
        ⟨3, none, "\x7ba, ".toList ++ (Stamp.property "b\\".toList 1 ++ "\x7d)".toList)⟩ := by
    have htext := @Edit.applyAll_singleton "use(\x7ba\x7d)".toList
      (.insert 6 (", ".toList ++ Stamp.property "b\\".toList 1)) 6 6 rfl (Edit.stop_insert _ _)
      (Nat.le_refl _) (by decide)
    simp only [ArgumentList.after, htext, ArgumentList.find, Scanner.closingParen_eq,
      Scanner.visits_eq]
    decide +kernel
  refine ⟨_, hmem, ?_, ?_, ?_, .insert 6 (", ".toList ++ Stamp.property "b\\".toList 1), ?_, ?_, ?_⟩
  · rw [classify_eq]
    decide +kernel
  · show (ArgumentList.find _ 3).closeParen.isSome = true
    rw [hlist]
    rfl
  · show isNested [] (sights (ArgumentList.find _ 3).text) = true
    rw [hlist]
    decide +kernel
  · rw [Stamp.editFor?_of_isWritable (by decide)]
    show Except.ok (Stamp.editFor .hook (ArgumentList.find _ 3) _ _) = _
    simp only [Stamp.editFor, hlayout]
    rw [hlist]
    rfl
  · show (ArgumentList.after _ 3 _).closeParen = none
    rw [hafter]
  · show ¬ Stamp.Fulfils .hook (ArgumentList.find _ 3) (ArgumentList.after _ 3 _) _ _
    have hlast : (ArgumentList.after "use(\x7ba\x7d)".toList 3
        (.insert 6 (", ".toList ++ Stamp.property "b\\".toList 1))).layout.lastObject? = none := by
      simp only [hafter, ArgumentList.layout, ArgumentLayout.ofText, Scanner.visits_eq]
      decide +kernel
    intro h
    unfold Stamp.Fulfils at h
    rw [hlayout] at h
    obtain ⟨-, _, _, _, _, _, o', -, -, -, ho', -⟩ := h
    rw [hlast] at ho'
    cases ho'

end SourceStamp
