import Mathlib.Data.List.Induction
import SourceStamp.Proofs.Stamping.Added
import SourceStamp.Proofs.Stamping.Woven

/-!
# Stamping again

Wrappers and methods that have got their stamps take no others, so a text without hooks is not
changed when it is stamped once more.

- `Edit.weave_concat`: the last of some edits can be made first.
- `Stampable.plan_weave`: so the plan is used up when all its edits are made, one stamp at a time.
- `stamp_again_unchanged`: the theorem.
-/

namespace SourceStamp

open MonitoredCall (findAll)

/-! ## All stamps -/

namespace Edit

theorem slice_append_left {a b : Text} {start stop : Int} (h0 : 0 ≤ start) (hle : start ≤ stop)
    (hstop : stop ≤ a.length) : slice (a ++ b) start stop = slice a start stop := by
  obtain ⟨i, rfl⟩ := Int.eq_ofNat_of_zero_le h0
  obtain ⟨j, rfl⟩ := Int.eq_ofNat_of_zero_le (Int.le_trans h0 hle)
  rw [Int.ofNat_le] at hle hstop
  rw [slice_eq hle (by rw [List.length_append]; omega), slice_eq hle hstop,
    List.drop_append_of_le_length (Nat.le_trans hle hstop),
    List.take_append_of_le_length (by rw [List.length_drop]; omega)]

/-- A last insertion can be made first, and the edits before it afterwards. -/
theorem weave_concat {a b x : Text} {es : List Edit} {cursor : Int} (h0 : 0 ≤ cursor)
    (hle : cursor ≤ a.length) (horder : InOrder a cursor es) (hfits : ∀ e ∈ es, Fits a e) :
    weave (a ++ b) cursor (es ++ [.insert a.length x]) = weave (a ++ (x ++ b)) cursor es := by
  induction es generalizing cursor with
  | nil =>
    obtain ⟨i, rfl⟩ := Int.eq_ofNat_of_zero_le h0
    rw [Int.ofNat_le] at hle
    have hend : weave (a ++ b) (Edit.insert a.length x).stop [] = b := by
      rw [stop_insert, weave_nil_eq_drop (by simp), List.drop_left]
    rw [weave_nil_eq_drop (by rw [List.length_append]; omega), List.drop_append_of_le_length hle]
    show slice (a ++ b) i a.length ++ (x ++ weave (a ++ b) (insert a.length x).stop []) = _
    rw [hend]
    refine congrArg (· ++ (x ++ b)) ?_
    refine (slice_append_left h0 (Int.ofNat_le.mpr hle) (Int.le_refl _)).trans ?_
    rw [slice_eq hle (Nat.le_refl _), List.take_of_length_le (Nat.le_of_eq List.length_drop)]
  | cons e es ih =>
    obtain ⟨hcursor, hstop, hrest⟩ := horder
    obtain ⟨he, hes⟩ := List.forall_mem_cons.mp hfits
    have hposition := Int.le_trans he.position_le hstop
    rw [List.cons_append, weave, weave, slice_append_left h0 hcursor hposition,
      slice_append_left h0 hcursor hposition,
      ih (Int.le_trans he.position_nonneg he.position_le) hstop hrest hes]

end Edit

section Weave

variable {names : MonitoredNames} {source : Text} {path : Option Text}

/-- A text around the character at an offset. -/
theorem exists_eq_append_cons {t : Text} {p : Nat} {c : Char} (h : t[p]? = some c) :
    ∃ a b, t = a ++ c :: b ∧ a.length = p := by
  obtain ⟨hlt, rfl⟩ := List.getElem?_eq_some_iff.mp h
  refine ⟨t.take p, t.drop (p + 1), ?_, List.length_take_of_le (Nat.le_of_lt hlt)⟩
  rw [← List.drop_eq_getElem_cons hlt, List.take_append_drop]

/-- Every edit of a stampable text adds something to a call. -/
theorem Stampable.exists_addition (h : Stampable names source)
    (hpath : '<' ∉ stampedPath path ∧ '>' ∉ stampedPath path) {e : Edit}
    (he : e ∈ plan names source path) :
    ∃ call ∈ findAll source names, call.edit? source path = some e ∧
      ∃ a b x, source = a ++ ')' :: b ∧ Addable a b x ∧ e = .insert a.length x := by
  rw [plan_eq] at he
  obtain ⟨call, hcall, hedit⟩ := List.mem_filterMap.mp he
  obtain ⟨n, m, hn, -, rfl⟩ := h.exists_of_edit hcall hedit
  have hat := (h.balanced hcall hn).closed_spec.2
  generalize call.openParen + 1 + n = k at hat hedit ⊢
  obtain ⟨a, b, rfl, rfl⟩ := exists_eq_append_cons hat.get_eq
  refine ⟨call, hcall, hedit, a, b, _, rfl, ⟨hat, ?_, ?_, ?_⟩, rfl⟩
  · exact Stamp.passedOver_addition hpath _ m
  · exact Stamp.tidy_addition (getLast?_stampedPath path) _ m
  · exact (Stamp.Inserted.arguments _ m).not_mem (by decide)

theorem Stampable.place_of_mem_plan (h : Stampable names source) {e : Edit}
    (he : e ∈ plan names source path) : 0 ≤ e.position ∧ e.stop = e.position := by
  rw [plan_eq] at he
  obtain ⟨call, hcall, hedit⟩ := List.mem_filterMap.mp he
  obtain ⟨n, m, -, -, rfl⟩ := h.exists_of_edit hcall hedit
  exact ⟨Int.natCast_nonneg _, Edit.stop_insert _ _⟩

/-- With the last of the planned edits made, the others are planned, where they were. -/
theorem Stampable.plan_of_last {a b x : Text} {es : List Edit} {call : MonitoredCall}
    (h : Stampable names (a ++ ')' :: b)) (hx : Addable a b x)
    (hcall : call ∈ findAll (a ++ ')' :: b) names)
    (hedit : call.edit? (a ++ ')' :: b) path = some (.insert a.length x))
    (hplan : (plan names (a ++ ')' :: b) path).Perm (es ++ [.insert a.length x]))
    (hbefore : ∀ e ∈ es, e.position < a.length) :
    (plan names (a ++ (x ++ ')' :: b)) path).Perm es := by
  have hkept : es.filter (·.position ≠ (a.length : Int)) = es :=
    List.filter_eq_self.mpr fun e he => decide_eq_true (Int.ne_of_lt (hbefore e he))
  have hgone : [Edit.insert a.length x].filter (·.position ≠ (a.length : Int)) = [] := by
    simp [Edit.insert]
  have hstay : ∀ e ∈ es, Edit.moved a.length x.length e = e := by
    intro e he
    rw [Edit.moved, if_pos (hbefore e he)]
  rw [h.plan_addition hx hcall hedit]
  refine ((hplan.filter _).map _).trans (List.Perm.of_eq ?_)
  rw [List.filter_append, hkept, hgone, List.append_nil]
  exact (List.map_congr_left hstay).trans (List.map_id es)

/-- Insertions one after the other, all before the end of a text. -/
theorem Edit.fits_and_inOrder {a : Text} {es : List Edit}
    (hplace : ∀ e ∈ es, 0 ≤ e.position ∧ e.stop = e.position)
    (hbefore : ∀ e ∈ es, e.position < a.length)
    (hsorted : es.Pairwise fun e e' => e.position < e'.position) :
    (∀ e ∈ es, Fits a e) ∧ InOrder a 0 es := by
  have hfits : ∀ e ∈ es, Fits a e := by
    intro e he
    obtain ⟨hnonneg, hstop⟩ := hplace e he
    exact ⟨hnonneg, Int.le_of_eq hstop.symm, hstop ▸ Int.le_of_lt (hbefore e he)⟩
  refine ⟨hfits, (inOrder_iff hfits).mpr ⟨fun e he => (hplace e he).1, ?_⟩⟩
  refine hsorted.imp_of_mem fun {e _} he _ hlt => ?_
  rw [(hplace e he).2]
  exact Int.le_of_lt hlt

/-- **All stamps**, by induction on the edits from the last one on: with all of them put in, nothing
is planned any more. -/
theorem Stampable.plan_weave (hpath : '<' ∉ stampedPath path ∧ '>' ∉ stampedPath path)
    {es : List Edit} (h : Stampable names source) (hplan : (plan names source path).Perm es)
    (hsorted : es.Pairwise fun e e' => e.position < e'.position) :
    plan names (Edit.weave source 0 es) path = [] := by
  induction es using List.reverseRecOn generalizing source with
  | nil =>
    rw [Edit.weave_nil_eq]
    exact hplan.eq_nil
  | append_singleton es e ih =>
    obtain ⟨hes, -, hlast⟩ := List.pairwise_append.mp hsorted
    have hmem : e ∈ plan names source path := hplan.mem_iff.mpr (by simp)
    have hplace : ∀ e' ∈ es, 0 ≤ e'.position ∧ e'.stop = e'.position := fun e' he' =>
      h.place_of_mem_plan (hplan.mem_iff.mpr (List.mem_append_left _ he'))
    obtain ⟨call, hcall, hedit, a, b, x, rfl, hx, rfl⟩ := h.exists_addition hpath hmem
    have hbefore : ∀ e' ∈ es, e'.position < a.length := fun e' he' =>
      hlast e' he' _ List.mem_cons_self
    obtain ⟨hfits, horder⟩ := Edit.fits_and_inOrder hplace hbefore hes
    rw [Edit.weave_concat (Int.le_refl 0) (Int.natCast_nonneg _) horder hfits]
    exact ih (h.addition hx) (h.plan_of_last hx hcall hedit hplan hbefore) hes

/-- No two calls of a stampable text share a host: there is none. -/
theorem Stampable.pairwise_not_sharesHost (h : Stampable names source) :
    (findAll source names).Pairwise fun call call' => ¬ call.SharesHost source call' := by
  refine (MonitoredCall.findAll_pairwise source names).imp_of_mem ?_
  rintro call call' hcall - - ⟨o, -, ho, -⟩
  have hkind := h.kind_ne call hcall
  rw [MonitoredCall.host?] at ho
  generalize call.kind = kind at hkind ho
  cases kind with
  | hook => exact hkind rfl
  | wrapper | method => cases ho

/-- All edits of its plan are applied, in order. -/
theorem Stampable.edits_eq (h : Stampable names source) (hskip : isSkipped names source = false) :
    (stamp names source path).edits = Edit.ordered (plan names source path) :=
  stamp_edits_eq hskip ((plan_dropped_eq_nil_iff path h.in_code).mpr
    (h.pairwise_not_sharesHost.imp fun hshare hempty =>
      hshare (MonitoredCall.sharesHost_of_sharesEmptyHost hempty)))

theorem Stampable.ordered_plan_pairwise (h : Stampable names source) (path : Option Text) :
    (Edit.ordered (plan names source path)).Pairwise fun e e' => e.position < e'.position := by
  have hne := (plan_position_ne_iff path h.in_code).mpr h.pairwise_not_sharesHost
  have hne' := (Edit.ordered_perm _).symm.pairwise hne Ne.symm
  exact (hne'.and (Edit.ordered_pairwise _)).imp fun h => Int.lt_iff_le_and_ne.mpr ⟨h.2, h.1⟩

/-- Names without hooks find no hook. -/
theorem kind_ne_hook {call : MonitoredCall} (hhooks : names.groups.hooks = [])
    (hcall : call ∈ findAll source names) : call.kind ≠ .hook := by
  intro hkind
  obtain ⟨o, ho, rfl⟩ := exists_of_callAt (mem_findAll_iff.mp hcall).1
  have hmem := (occurrenceAt_eq_some ho).2.1
  rw [hkind] at hmem
  simp [MonitoredNames.callees, hhooks, mem_longestFirst] at hmem

theorem stampable (hhooks : names.groups.hooks = [])
    (hparen : ∀ call ∈ findAll source names, classify source call.openParen = .code)
    (hnested : ∀ call ∈ findAll source names,
      (ArgumentList.find source call.openParen).closeParen.isSome = true →
        isNested [] (sights (ArgumentList.find source call.openParen).text) = true) :
    Stampable names source := by
  refine ⟨fun call hcall => kind_ne_hook hhooks hcall, hparen, ?_⟩
  intro call hcall n hn
  have hopen := MonitoredCall.openParen_codeAt hcall (hparen call hcall)
  have hb := Stamp.balanced_of_closingIn hopen hn
  have hclose : (ArgumentList.find source call.openParen).closeParen.isSome = true := by
    rw [ArgumentList.find_eq_some hb]
    rfl
  have hlevel := level_of_isNested (hnested call hcall hclose)
  rwa [Stamp.sights_arguments hb] at hlevel

end Weave

/-- **Stamping again changes nothing** where no hooks are monitored, the path of the stamps holds no
angle bracket, every call of the source text opens in code, and the brackets among the arguments of
each call are nested. -/
theorem stamp_again_unchanged {names : MonitoredNames} {source : Text} {path : Option Text}
    (hhooks : names.groups.hooks = [])
    (hpath : '<' ∉ stampedPath path ∧ '>' ∉ stampedPath path)
    (hparen : ∀ call ∈ findAll source names, classify source call.openParen = .code)
    (hnested : ∀ call ∈ findAll source names,
      (ArgumentList.find source call.openParen).closeParen.isSome = true →
        isNested [] (sights (ArgumentList.find source call.openParen).text) = true) :
    (stamp names (stamp names source path).text path).changed = false := by
  have h : Stampable names source := stampable hhooks hparen hnested
  have hedits : (stamp names (stamp names source path).text path).edits = [] := by
    cases hskip : isSkipped names source with
    | true =>
      -- a text that is left alone is left alone again
      have htext : (stamp names source path).text = source := by
        rw [stamp, hskip, if_pos rfl]
        rfl
      rw [htext, stamp, hskip, if_pos rfl]
      rfl
    | false =>
      have hplan : plan names (stamp names source path).text path = [] := by
        rw [stamp_text_eq, h.edits_eq hskip]
        exact h.plan_weave hpath (Edit.ordered_perm _).symm (h.ordered_plan_pairwise path)
      refine List.eq_nil_iff_forall_not_mem.mpr fun e he => ?_
      have hmem := mem_plan_of_mem_edits he
      rw [hplan] at hmem
      cases hmem
  rw [Stamping.changed, hedits]
  rfl

/-- A wrapper, and a method on a receiver. -/
def MonitoredNames.withoutHooks : MonitoredNames :=
  ⟨⟨[], ["wrap".toList], ["log".toList], ["info".toList]⟩, by decide +kernel, by decide +kernel⟩

/-- A call with two arguments, the first of which is a call itself: both are stamped once. -/
theorem stamp_again_unchanged_nested :
    (plan .withoutHooks "log.info(wrap(a), [b])".toList none).length = 2 ∧
      (stamp .withoutHooks (stamp .withoutHooks "log.info(wrap(a), [b])".toList none).text
        none).changed = false := by
  refine ⟨?_, stamp_again_unchanged rfl (by decide) ?_ ?_⟩
  · simp only [plan_eq, MonitoredCall.findAll_eq, Occurrence.isCall, classify_eq,
      MonitoredCall.edit?, ArgumentList.find, Scanner.closingParen_eq, Scanner.visits_eq,
      Stamp.editFor, ArgumentList.layout, ArgumentLayout.ofText]
    decide +kernel
  · simp only [MonitoredCall.findAll_eq, Occurrence.isCall, classify_eq]
    decide +kernel
  · simp only [MonitoredCall.findAll_eq, Occurrence.isCall, classify_eq, ArgumentList.find,
      Scanner.closingParen_eq, Scanner.visits_eq]
    decide +kernel

end SourceStamp
