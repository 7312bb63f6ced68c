import SourceStamp.Proofs.Call.Moved
import SourceStamp.Proofs.Stamping.LineNumbers
import SourceStamp.Proofs.Stamping.States

/-!
# One stamp

When the stamp of a wrapper or method is put in, its edit is no longer planned. All other edits
still are, where the stamp moves them.

- `Stamp.passedOver_addition`, `LineIndex.lineOf_moved`: what is added to a call shows no call, and
  leaves the calls around it in their lines.
- `Stampable`: the texts that one stamp leaves as they have to be: every call opens in code, and the
  brackets in its arguments are nested. `Stampable.addition` is the step.
- `Stampable.edit_moved`, `Stampable.edit_moved_self`: what becomes of the edits of the calls, and
  `Stampable.plan_addition`: of the plan.
-/

namespace SourceStamp

open Text (isBlank)
open MonitoredCall (findAll)
open Stamp (shownAfter shownEdit?)

/-! ## The texts that are added -/

namespace Stamp

variable {file : Text} {line : Int}

theorem exists_furtherArguments_eq_append (n : Nat) (file : Text) (line : Int) :
    ∃ front, furtherArguments n file line = front ++ ['}'] := by
  induction n with
  | zero =>
    refine ⟨"\x7b ".toList ++ property file line ++ " ".toList, ?_⟩
    rw [List.append_assoc]
    rfl
  | succ n ih =>
    obtain ⟨front, hfront⟩ := ih
    refine ⟨placeholder ++ (", ".toList ++ front), ?_⟩
    rw [furtherArguments_succ, hfront, List.append_assoc, List.append_assoc]

/-- The search for calls does not stop at what is added to a call. -/
theorem passedOver_addition (hfile : '<' ∉ file ∧ '>' ∉ file) (afterComma : Bool) (n : Nat) :
    PassedOver (addition afterComma n file line) := by
  obtain ⟨c, rest, hc, hcons⟩ := exists_furtherArguments_eq_cons n file line
  have hfirst : isBlank c = false ∧ c ≠ '(' := by
    rcases hc with rfl | rfl <;> decide
  obtain ⟨front, hfront⟩ := exists_furtherArguments_eq_append n file line
  refine ⟨?_, ?_, ?_, ?_⟩
  · intro d hd
    rcases (Inserted.arguments afterComma n).writes d hd with ⟨hmem, -⟩ | hfixed
    · exact ⟨fun heq => hfile.1 (heq ▸ hmem), fun heq => hfile.2 (heq ▸ hmem)⟩
    · constructor <;> rintro rfl <;> exact absurd hfixed (by decide)
  · cases afterComma with
    | true => exact ⟨' ', _, rfl, by decide⟩
    | false => exact ⟨',', _, rfl, by decide⟩
  · cases afterComma with
    | true =>
      refine ⟨[' '], c, rest, ?_, List.forall_mem_singleton.mpr (by decide), hfirst⟩
      rw [addition, hcons]
      rfl
    | false => exact ⟨[], ',', _, rfl, by simp, by decide, by decide⟩
  · refine ⟨separator afterComma ++ front, '}', ?_, by decide, by decide⟩
    rw [addition, hfront, List.append_assoc]

end Stamp

/-! ## Lines -/

namespace LineIndex

/-- A text without line feeds leaves the characters around it in their lines. -/
theorem lineOf_moved {a x w : Text} (hx : '\n' ∉ x) (offset : Nat) :
    (ofSource (a ++ (x ++ w))).lineOf (movedOffset a.length x.length offset) =
      (ofSource (a ++ w)).lineOf offset := by
  rw [lineOf_ofSource, lineOf_ofSource, movedOffset]
  split
  · next hlt =>
    rw [List.take_append_of_le_length (Nat.le_of_lt hlt),
      List.take_append_of_le_length (Nat.le_of_lt hlt)]
  · next hge =>
    obtain ⟨i, rfl⟩ := Nat.exists_eq_add_of_le (Nat.le_of_not_lt hge)
    rw [Nat.add_assoc, Nat.add_comm i, List.take_length_add_append, List.take_length_add_append,
      List.take_length_add_append, List.count_append, List.count_append, List.count_append,
      List.count_eq_zero_of_not_mem hx, Nat.zero_add]

end LineIndex

/-! ## One stamp -/

/-- A source text without hooks in which every call opens in code, and has nested brackets in its
arguments. -/
structure Stampable (names : MonitoredNames) (source : Text) : Prop where
  kind_ne : ∀ call ∈ findAll source names, call.kind ≠ .hook
  in_code : ∀ call ∈ findAll source names, classify source call.openParen = .code
  nested : ∀ call ∈ findAll source names, NestedArguments (shownAfter source call.openParen)

namespace Stampable

variable {names : MonitoredNames} {source : Text} {path : Option Text} {call : MonitoredCall}

/-- The edit of a call goes by what the source text shows after its opening parenthesis. -/
theorem edit_eq (h : Stampable names source) (hcall : call ∈ findAll source names) :
    call.edit? source path =
      shownEdit? call.kind call.openParen (shownAfter source call.openParen) (stampedPath path)
        ((LineIndex.ofSource source).lineOf call.start) :=
  Stamp.editFor_eq_shownEdit (MonitoredCall.openParen_codeAt hcall (h.in_code call hcall))
    (h.kind_ne call hcall)

/-- Where the edit of a call puts its text, and which one. -/
theorem exists_of_edit (h : Stampable names source) (hcall : call ∈ findAll source names) {e : Edit}
    (he : call.edit? source path = some e) :
    ∃ n m, closingIn 0 (shownAfter source call.openParen) = some n ∧
      Stamp.padding? call.kind (tally ((shownAfter source call.openParen).take n)) = some m ∧
      e = .insert ((call.openParen + 1 + n : Nat) : Int)
        (Stamp.addition (tally ((shownAfter source call.openParen).take n)).trailing m
          (stampedPath path) ((LineIndex.ofSource source).lineOf call.start)) := by
  rw [h.edit_eq hcall] at he
  obtain ⟨n, hn, he⟩ := Option.bind_eq_some_iff.mp he
  obtain ⟨m, hm, rfl⟩ := Option.map_eq_some_iff.mp he
  exact ⟨n, m, hn, hm, rfl⟩

/-- The end of a call, among what is shown after its opening parenthesis. -/
theorem balanced (h : Stampable names source) (hcall : call ∈ findAll source names) {n : Nat}
    (hn : closingIn 0 (shownAfter source call.openParen) = some n) :
    Balanced source call.openParen (call.openParen + 1 + n) :=
  Stamp.balanced_of_closingIn (MonitoredCall.openParen_codeAt hcall (h.in_code call hcall)) hn

end Stampable

section Addition

variable {a b x : Text}

/-- The text `x` can be added to a call that `a` leads up to and a closing parenthesis ends, with `b`
after that. -/
structure Addable (a b x : Text) : Prop where
  paren_at : CodeAt (a ++ ')' :: b) a.length ')'
  passedOver : PassedOver x
  tidy : Stamp.Tidy x
  one_line : '\n' ∉ x

/-- What is shown after an opening parenthesis, with an addition and without: it is the same, or the
addition comes in before the closing parenthesis at which it stands. -/
theorem shownAfter_moved (hx : Addable a b x) {p : Nat} (hp : p ≠ a.length) :
    (a.length < p ∧ shownAfter (a ++ (x ++ ')' :: b)) (movedOffset a.length x.length p) =
        shownAfter (a ++ ')' :: b) p) ∨
      ∃ u w, p + 1 + u.length = a.length ∧
        shownAfter (a ++ ')' :: b) p = u ++ .code ')' :: w ∧
        shownAfter (a ++ (x ++ ')' :: b)) (movedOffset a.length x.length p) =
          u ++ (sights x ++ .code ')' :: w) := by
  obtain ⟨hsights, hsights'⟩ := sights_insert hx.paren_at hx.tidy
  have hlen := length_sights a
  have hlen' := length_sights x
  rcases Nat.lt_or_gt_of_ne hp with hlt | hgt
  · -- the closing parenthesis is the first thing seen after the addition
    have hparen : (sights (')' :: b)).head? = some (.code ')') := by
      have := hx.paren_at.sights_eq (.inr (by decide))
      rwa [hsights, ← hlen, List.getElem?_append_right (Nat.le_refl _), Nat.sub_self,
        ← List.head?_eq_getElem?] at this
    obtain ⟨w, hw⟩ := List.head?_eq_some_iff.mp hparen
    refine .inr ⟨(sights a).drop (p + 1), w, ?_, ?_, ?_⟩
    · rw [List.length_drop, hlen]
      omega
    · rw [shownAfter, hsights, hw, List.drop_append_of_le_length (by omega)]
    · rw [shownAfter, movedOffset, if_pos hlt, hsights', hw,
        List.drop_append_of_le_length (by omega)]
  · obtain ⟨i, rfl⟩ := Nat.exists_eq_add_of_lt hgt
    refine .inl ⟨hgt, ?_⟩
    have hsum : a.length + i + 1 + x.length + 1 =
        (sights a).length + ((sights x).length + (i + 2)) := by omega
    have hsum' : a.length + i + 1 + 1 = (sights a).length + (i + 2) := by omega
    rw [shownAfter, shownAfter, movedOffset, if_neg (by omega), hsights, hsights', hsum, hsum',
      List.drop_length_add_append, List.drop_length_add_append, List.drop_length_add_append]

variable {names : MonitoredNames} {call : MonitoredCall}

theorem openParen_ne (hx : Addable a b x) (hcall : call ∈ findAll (a ++ ')' :: b) names) :
    call.openParen ≠ a.length := by
  intro heq
  have hget := (MonitoredCall.text_at hcall).getElem_openParen
  rw [heq, hx.paren_at.get_eq] at hget
  exact absurd hget (by decide)

theorem stop_pos {source : Text} (hcall : call ∈ findAll source names) :
    0 < call.stop := by
  have := (MonitoredCall.text_at hcall).stop_eq
  omega

/-- A text with an addition is stampable if it is so without. -/
theorem Stampable.addition (h : Stampable names (a ++ ')' :: b)) (hx : Addable a b x) :
    Stampable names (a ++ (x ++ ')' :: b)) := by
  have hmoved : ∀ {call}, call ∈ findAll (a ++ (x ++ ')' :: b)) names →
      ∃ call' ∈ findAll (a ++ ')' :: b) names, call'.moved a.length x.length = call := by
    intro call hcall
    exact List.mem_map.mp
      ((mem_findAll_moved_iff hx.paren_at hx.passedOver hx.tidy).mp hcall)
  refine ⟨?_, ?_, ?_⟩
  · intro call hcall
    obtain ⟨call', hcall', rfl⟩ := hmoved hcall
    exact h.kind_ne call' hcall'
  · intro call hcall
    obtain ⟨call', hcall', rfl⟩ := hmoved hcall
    rw [MonitoredCall.moved_openParen (stop_pos hcall')]
    exact (classify_moved hx.paren_at hx.tidy (MonitoredCall.text_at hcall').getElem_openParen
      (by decide) (by decide)).mpr (h.in_code call' hcall')
  · intro call hcall
    obtain ⟨call', hcall', rfl⟩ := hmoved hcall
    have hnested := h.nested call' hcall'
    rw [MonitoredCall.moved_openParen (stop_pos hcall')]
    rcases shownAfter_moved hx (openParen_ne hx hcall') with ⟨-, heq⟩ | ⟨u, w, -, hu, hu'⟩
    · rw [heq]
      exact hnested
    · rw [hu] at hnested
      rw [hu']
      exact nestedArguments_insert hx.tidy.not_isParen hx.tidy.level_eq hnested

/-- The edit with its place moved. -/
def Edit.moved (k n : Nat) (e : Edit) : Edit :=
  { e with position := if e.position < k then e.position else e.position + n }

variable {path : Option Text}

/-- The edit of a call after an addition, by what is shown then. -/
theorem Stampable.edit_addition (h : Stampable names (a ++ ')' :: b)) (hx : Addable a b x)
    (hcall : call ∈ findAll (a ++ ')' :: b) names) :
    (call.moved a.length x.length).edit? (a ++ (x ++ ')' :: b)) path =
      shownEdit? call.kind (movedOffset a.length x.length call.openParen)
        (shownAfter (a ++ (x ++ ')' :: b)) (movedOffset a.length x.length call.openParen))
        (stampedPath path) ((LineIndex.ofSource (a ++ ')' :: b)).lineOf call.start) := by
  have hcall' : call.moved a.length x.length ∈ findAll (a ++ (x ++ ')' :: b)) names :=
    (mem_findAll_moved_iff hx.paren_at hx.passedOver hx.tidy).mpr (List.mem_map_of_mem hcall)
  rw [(h.addition hx).edit_eq hcall', MonitoredCall.moved_openParen (stop_pos hcall),
    MonitoredCall.moved_start, MonitoredCall.moved_kind, LineIndex.lineOf_moved hx.one_line]

/-- An addition moves the edits of the calls that end elsewhere. -/
theorem Stampable.edit_moved (h : Stampable names (a ++ ')' :: b)) (hx : Addable a b x)
    (hcall : call ∈ findAll (a ++ ')' :: b) names)
    (hne : ∀ n, closingIn 0 (shownAfter (a ++ ')' :: b) call.openParen) = some n →
      call.openParen + 1 + n ≠ a.length) :
    (call.moved a.length x.length).edit? (a ++ (x ++ ')' :: b)) path =
      (call.edit? (a ++ ')' :: b) path).map (Edit.moved a.length x.length) := by
  rw [h.edit_addition hx hcall, h.edit_eq hcall, shownEdit?, shownEdit?, Option.map_bind]
  rcases shownAfter_moved hx (openParen_ne hx hcall) with ⟨hlt, heq⟩ | ⟨u, w, hlen, hu, hu'⟩
  · -- the call opens after the addition
    rw [heq]
    refine Option.bind_congr fun n _ => ?_
    simp only [Function.comp_apply, Option.map_map]
    congr 1
    funext m
    simp only [Function.comp_apply, Edit.moved, Edit.insert, movedOffset]
    congr 1
    rw [if_neg (by omega), if_neg (by omega)]
    omega
  · -- the addition stands among its arguments, or after its end
    have hnested := h.nested call hcall
    rw [hu] at hne hnested
    rw [hu, hu', closingIn_insert hx.tidy.not_isParen, Option.bind_map]
    refine Option.bind_congr fun n hn => ?_
    have hne := hne n hn
    simp only [Function.comp_apply, Option.map_map, ← length_sights x]
    rw [tally_take_insert (by decide) hx.tidy.level_eq (by omega) (hnested n hn)]
    congr 1
    funext m
    simp only [Function.comp_apply, Edit.moved, Edit.insert, movedOffset, length_sights]
    congr 1
    split <;> split <;> split <;> omega

/-- A call that has got its stamp takes no other one. -/
theorem Stampable.edit_moved_self (h : Stampable names (a ++ ')' :: b)) (hx : Addable a b x)
    (hcall : call ∈ findAll (a ++ ')' :: b) names)
    (hedit : call.edit? (a ++ ')' :: b) path = some (.insert a.length x)) :
    (call.moved a.length x.length).edit? (a ++ (x ++ ')' :: b)) path = none := by
  obtain ⟨n, m, hn, hm, heq⟩ := h.exists_of_edit hcall hedit
  injection heq with hposition _ htext
  rw [h.edit_addition hx hcall, shownEdit?]
  rcases shownAfter_moved hx (openParen_ne hx hcall) with ⟨hlt, -⟩ | ⟨u, w, hlen, hu, hu'⟩
  · omega
  · -- the addition stands right before the end of the call
    have hnested := h.nested call hcall n hn
    obtain rfl : n = u.length := by omega
    rw [hu] at hn hnested hm htext
    rw [List.take_left] at hnested hm htext
    rw [hu', closingIn_insert hx.tidy.not_isParen, hn, Option.map_some, Option.bind_some,
      if_neg (Nat.lt_irrefl _), List.take_length_add_append, List.take_left, tally,
      List.foldl_append]
    have hdepth : (tally u).depth = 0 := Tally.foldl_add_depth hnested
    have hnone := @Stamp.padding?_addition (stampedPath path)
      ((LineIndex.ofSource (a ++ ')' :: b)).lineOf call.start) (getLast?_stampedPath path)
      call.kind (tally u) m hdepth hm
    rw [← htext] at hnone
    rw [show u.foldl Tally.add .empty = tally u from rfl, hnone]
    rfl

/-- **One stamp**: where the text of an edit is put in, that edit is no longer planned, and the
other ones are, where the text moves them. -/
theorem Stampable.plan_addition (h : Stampable names (a ++ ')' :: b)) (hx : Addable a b x)
    (hcall : call ∈ findAll (a ++ ')' :: b) names)
    (hedit : call.edit? (a ++ ')' :: b) path = some (.insert a.length x)) :
    plan names (a ++ (x ++ ')' :: b)) path =
      ((plan names (a ++ ')' :: b) path).filter (·.position ≠ (a.length : Int))).map
        (Edit.moved a.length x.length) := by
  rw [plan_eq, plan_eq, findAll_moved hx.paren_at hx.passedOver hx.tidy, List.filterMap_map,
    List.filter_filterMap, List.map_filterMap]
  refine List.filterMap_congr fun call' hcall' => ?_
  rw [Function.comp_apply]
  obtain ⟨n, m, hn, -, heq⟩ := h.exists_of_edit hcall hedit
  injection heq with hposition _ _
  have hb := h.balanced hcall hn
  by_cases hsame : call'.openParen = call.openParen
  · -- the call that was stamped
    obtain rfl : call' = call := MonitoredCall.eq_of_openParen_eq hcall' hcall hsame
    rw [h.edit_moved_self hx hcall hedit, hedit, Option.filter_some, if_neg]
    · rfl
    · simp [Edit.insert]
  · -- no other call ends at the same parenthesis
    have hne : ∀ n', closingIn 0 (shownAfter (a ++ ')' :: b) call'.openParen) = some n' →
        call'.openParen + 1 + n' ≠ a.length := by
      intro n' hn' heq
      have hb' := h.balanced hcall' hn'
      have hclosed : call'.openParen + 1 + n' = call.openParen + 1 + n := by omega
      rw [hclosed] at hb'
      exact hsame (hb'.unique_close hb)
    rw [h.edit_moved hx hcall' hne]
    cases he : call'.edit? (a ++ ')' :: b) path with
    | none => rfl
    | some e =>
      obtain ⟨n', m', hn', -, rfl⟩ := h.exists_of_edit hcall' he
      have hposition' : ((call'.openParen + 1 + n' : Nat) : Int) ≠ (a.length : Int) := fun heq =>
        hne n' hn' (Int.ofNat_inj.mp heq)
      rw [Option.filter_some]
      exact congrArg (Option.map _) (if_pos (decide_eq_true hposition')).symm

end Addition

end SourceStamp
