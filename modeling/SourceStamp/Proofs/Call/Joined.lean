import SourceStamp.Proofs.Call.Filled
import SourceStamp.Proofs.Call.Sketch
import SourceStamp.Proofs.Call.Supplant

/-!
# Object literals that a stamp joins

A hook puts its stamp into the last object literal among its arguments, at the end of what stands in
it.

- `ObjectLiteral.StandsIn`: an object literal in the text of an argument list, in three parts.
- `PairAt.exists_sights`: what the text around the slot shows.
- `PairAt.count_filled`, `PairAt.lastObject?_filled`: with the slot filled there are as many
  arguments, and the last object literal still is the last one.
- `JoinsObject`, `PairAt.joinsObject`: only the end of what stands in it is another one.
-/

namespace SourceStamp

open Stamp (Tidy)

/-- The object literal stands in the text of an argument list: what stands before it, between its
braces, and after it. -/
structure ObjectLiteral.StandsIn (o : ObjectLiteral) (list : ArgumentList)
    (before inside after : Text) : Prop where
  text_eq : list.text = before ++ '{' :: (inside ++ '}' :: after)
  openBrace_eq : o.openBrace = list.openParen + 1 + before.length
  closeBrace_eq : o.closeBrace = o.openBrace + 1 + inside.length

/-- An object literal of an argument list is the last one of another list as well, where a text has
joined what stands in it. The texts before and after it are the same in both lists, and between its
braces nothing but blanks and comments follows. -/
def JoinsObject (list : ArgumentList) (o : ObjectLiteral) (list' : ArgumentList) (x : Text) : Prop :=
  ∃ before content gap gap' after o',
    o.StandsIn list before (content ++ gap) after ∧ Trivia gap ∧
    o.contentEnd = o.openBrace + 1 + content.length ∧
    list'.layout.lastObject? = some o' ∧
    o'.StandsIn list' before (content ++ (x ++ gap')) after ∧ Trivia gap'

/-! ## Sights around a slot -/

theorem level_of_hidden {l : List Sight} (hl : ∀ s ∈ l, s = .hidden) (depth : Nat) :
    level depth l = some depth := by
  refine Stamp.level_of_no_bracket (fun c hc => ?_) depth
  cases hl _ hc

namespace PairAt

variable {t : Text} {b : BracePair} {j : Nat}

section Slot

variable (h : PairAt t b) (hle : b.lastInside < j) (hj : j ≤ b.closed)
  (hcode : (readingAt t j).InCode)

include h hle hj hcode

/-- What stands between the last significant character and the closing brace is a slot. -/
theorem slot : Slot t (b.lastInside + 1) j where
  le := hle
  le_length := Nat.le_trans hj (Nat.le_of_lt h.closed_at.lt)
  inCode_start := h.inCode_succ
  inCode_stop := hcode
  gap := fun p hp hfirst => Nat.le_trans hj (h.gap p hp hfirst)

/-- After the slot nothing is shown up to the closing brace. -/
theorem exists_sights : ∃ d g w : List Sight, (∀ s ∈ d, s = .hidden) ∧ (∀ s ∈ g, s = .hidden) ∧
    d.length = j - (b.lastInside + 1) ∧ g.length = b.closed - j ∧
    sights t = sights (t.take (b.lastInside + 1)) ++ (d ++ (g ++ .code '}' :: w)) ∧
    sights (t.drop j) = g ++ .code '}' :: w := by
  have hslot := h.slot hle hj hcode
  obtain ⟨d, hd, hdlength, hsights⟩ := hslot.sights_eq
  have hlength : (sights (t.take (b.lastInside + 1)) ++ d).length = j := by
    rw [List.length_append, length_sights, hdlength,
      List.length_take_of_le (Nat.le_trans hslot.le hslot.le_length)]
    omega
  have hdrop : sights (t.drop j) = (sights t).drop j := by
    rw [hsights, ← List.append_assoc, List.drop_left' hlength]
  have hclosed : (sights (t.drop j))[b.closed - j]? = some (.code '}') := by
    rw [hdrop, List.getElem?_drop, Nat.add_sub_cancel' hj]
    exact h.closed_at.sights_eq (.inr (by decide))
  obtain ⟨hlt, hget⟩ := List.getElem?_eq_some_iff.mp hclosed
  have hrest : sights (t.drop j) = (sights (t.drop j)).take (b.closed - j) ++
      .code '}' :: (sights (t.drop j)).drop (b.closed - j + 1) := by
    rw [← hget, ← List.drop_eq_getElem_cons hlt, List.take_append_drop]
  refine ⟨d, (sights (t.drop j)).take (b.closed - j), _, hd, ?_, hdlength,
    List.length_take_of_le (Nat.le_of_lt hlt), ?_, hrest⟩
  · have hgap : Gap t j b.closed := fun p hp hle' => h.gap p hp (Nat.le_trans hle hle')
    rw [hdrop]
    exact fun s hs => hgap.eq_hidden hs
  · rw [← hrest]
    exact hsights

/-- The rest of the text begins with blanks and comments up to the closing brace. -/
theorem exists_trivia : ∃ gap, Trivia gap ∧ gap.length = b.closed - j ∧
    t.drop j = gap ++ '}' :: t.drop (b.closed + 1) := by
  have hclosed := h.closed_at.lt
  have hgap : Gap t j b.closed := fun p hp hfirst => h.gap p hp (Nat.le_trans hle hfirst)
  have htrivia := trivia_of_gap_between hgap hj (Nat.le_of_lt hclosed) hcode h.closed_at.inCode
    (by rw [h.closed_at.get_eq]; simp [Reading.IsSecond])
  have hsplit := eq_append_between hj h.closed_at.get_eq
  refine ⟨_, htrivia, ?_, List.append_cancel_left ((List.take_append_drop j t).trans hsplit)⟩
  rw [List.length_take, List.length_drop]
  omega

variable {x : Text} (hx : Tidy x) (hne : x ≠ [])

include hx hne

/-- The number of arguments stays as it is. -/
theorem count_filled (base : Int) (hlevel : level 0 (sights t) = some 0) :
    (ArgumentLayout.ofText base (filled t (b.lastInside + 1) j x)).count =
      (ArgumentLayout.ofText base t).count := by
  obtain ⟨d, g, w, hd, hg, -, -, hsights, hafter⟩ := h.exists_sights hle hj hcode
  have hfilled := (h.slot hle hj hcode).sights_filled hx hne
  have hbefore : level 0 (d ++ g) = some 0 :=
    level_of_hidden (List.forall_mem_append.mpr ⟨hd, hg⟩) 0
  have hinside : level 0 (sights x ++ g) = some 0 := by
    rw [level_append, hx.level_eq]
    exact level_of_hidden hg 0
  have hc : Outline.isOpener '}' = false ∧ Outline.isCloser '}' = true := by decide
  rw [hafter, ← List.append_assoc (sights x)] at hfilled
  rw [← List.append_assoc d] at hsights
  rw [hsights, level_insert hbefore] at hlevel
  rw [ArgumentLayout.count_eq, ArgumentLayout.count_eq, hsights, hfilled,
    tally_insert_of_level hc hbefore hlevel, tally_insert_of_level hc hinside hlevel]

/-- **The last object literal** is the same, with its closing brace moved. -/
theorem lastObject?_filled {base : Int}
    (hlast : (ArgumentLayout.ofText base t).lastObject? = some (b.toObject base)) :
    ∃ o', (ArgumentLayout.ofText base (filled t (b.lastInside + 1) j x)).lastObject? = some o' ∧
      o'.openBrace = base + b.opened ∧
      o'.closeBrace = base + (b.lastInside + 1 + x.length + (b.closed - j) : Nat) := by
  obtain ⟨d, g, w, hd, hg, hdlength, hglength, hsights, hafter⟩ := h.exists_sights hle hj hcode
  have hfilled := (h.slot hle hj hcode).sights_filled hx hne
  have hinside := h.lastInside_lt
  have hopened := h.opened_le
  have hlength : (sights (t.take (b.lastInside + 1))).length = b.lastInside + 1 := by
    rw [length_sights, List.length_take_of_le (Nat.le_trans hinside (Nat.le_of_lt h.closed_at.lt))]
  have hwhole := ArgumentLayout.wholePair?_of_lastObject? hlast
  rw [hafter] at hfilled
  rw [hsights] at hwhole
  generalize sights (t.take (b.lastInside + 1)) = u at hfilled hwhole hlength
  -- the opening brace is the only open bracket at the slot
  have hopen : (sketch u).openBrackets ≠ [] := by
    have hpair := List.mem_of_find?_eq_some hwhole
    rw [← List.append_assoc d] at hpair
    rw [Sketch.openBrackets_of_mem_pairs hpair (List.forall_mem_append.mpr ⟨hd, hg⟩)
      (by rw [List.length_append]; omega)]
    exact List.cons_ne_nil _ _
  have hwhole' := Sketch.wholePair?_exchange hopen (level_of_hidden hd 0) hx.level_eq hwhole
    (by omega) (by omega)
  rw [← hfilled] at hwhole'
  have hlast' := ArgumentLayout.lastObject?_eq base (filled t (b.lastInside + 1) j x)
  rw [hwhole'] at hlast'
  obtain ⟨o', ho', hplaces⟩ := Option.map_eq_some_iff.mp hlast'
  obtain ⟨hopen', hclose'⟩ := Prod.mk.inj hplaces
  refine ⟨o', ho', hopen', hclose'.trans ?_⟩
  rw [length_sights]
  congr 2
  omega

end Slot

/-- The text around what stands in an object literal. -/
theorem exists_parts (h : PairAt t b) : ∃ before content,
    t.take (b.lastInside + 1) = before ++ '{' :: content ∧ before.length = b.opened ∧
    before.length + 1 + content.length = b.lastInside + 1 := by
  have hopened := h.opened_le
  have hlength : (t.take (b.lastInside + 1)).length = b.lastInside + 1 :=
    List.length_take_of_le (Nat.le_trans h.lastInside_lt (Nat.le_of_lt h.closed_at.lt))
  have hget : (t.take (b.lastInside + 1))[b.opened]? = some '{' := by
    rw [List.getElem?_take_of_lt (Nat.lt_succ_of_le hopened)]
    exact h.opened_at.get_eq
  have hsplit := eq_append_between (Nat.zero_le b.opened) hget
  rw [List.take_zero, List.nil_append, List.drop_zero, Nat.sub_zero] at hsplit
  refine ⟨_, _, hsplit, ?_, ?_⟩
  · rw [List.length_take, hlength]
    omega
  · rw [List.length_take, List.length_drop, hlength]
    omega

/-- **A stamp joins the last object literal** where it fills the end of what stands in it, up to a
place before the closing brace. -/
theorem joinsObject {list list' : ArgumentList} (h : PairAt list.text b) (hle : b.lastInside < j)
    (hj : j ≤ b.closed) (hcode : (readingAt list.text j).InCode) {x z : Text} (hx : Tidy (x ++ z))
    (hne : x ++ z ≠ []) (hz : Trivia z)
    (hlast : list.layout.lastObject? = some (b.toObject (list.openParen + 1)))
    (hopen : list'.openParen = list.openParen)
    (htext : list'.text = filled list.text (b.lastInside + 1) j (x ++ z)) :
    JoinsObject list (b.toObject (list.openParen + 1)) list' x := by
  obtain ⟨before, content, hparts, hbefore, hcontent⟩ := h.exists_parts
  obtain ⟨gap, hgap, hlength, hdrop⟩ :=
    h.exists_trivia (Nat.lt_succ_self _) h.lastInside_lt h.inCode_succ
  obtain ⟨gap', hgap', hlength', hdrop'⟩ := h.exists_trivia hle hj hcode
  obtain ⟨o', ho', hopen', hclose'⟩ := h.lastObject?_filled hle hj hcode hx hne hlast
  have hinside := h.lastInside_lt
  -- up to its last significant character the literal is as before; the stamp comes right after that
  refine ⟨before, content, gap, z ++ gap', list.text.drop (b.closed + 1), o', ⟨?_, ?_, ?_⟩, hgap,
    ?_, ?_, ⟨?_, ?_, ?_⟩, hz.append hgap'⟩
  · calc
      list.text = list.text.take (b.lastInside + 1) ++ list.text.drop (b.lastInside + 1) :=
        (List.take_append_drop _ _).symm
      _ = (before ++ '{' :: content) ++ (gap ++ '}' :: list.text.drop (b.closed + 1)) := by
        rw [hparts, hdrop]
      _ = _ := by simp
  · rw [BracePair.toObject, hbefore]
  · simp only [BracePair.toObject, List.length_append, hlength]
    omega
  · simp only [BracePair.toObject]
    omega
  · rw [ArgumentList.layout, htext, hopen]
    exact ho'
  · calc
      list'.text = list.text.take (b.lastInside + 1) ++ ((x ++ z) ++ list.text.drop j) := htext
      _ = (before ++ '{' :: content) ++
          ((x ++ z) ++ (gap' ++ '}' :: list.text.drop (b.closed + 1))) := by rw [hparts, hdrop']
      _ = _ := by simp
  · rw [hopen', hopen, hbefore]
  · rw [hclose', hopen']
    simp only [List.length_append, hlength']
    omega

end PairAt
end SourceStamp
