import SourceStamp.Proofs.Call.Brackets
import SourceStamp.Proofs.Call.Host
import SourceStamp.Proofs.Call.Place
import SourceStamp.Stamping

/-!
# No planned stamp is lost

The edits that stamp the calls of a source text never get in each other's way, with one exception:
calls that have the same object literal as the last one among their arguments.

- `MonitoredCall.SharesHost`: the exception, and `MonitoredCall.PairsBrackets`: arguments that rule
  it out.
- `plan_is_applied`: all edits lie within the text, they meet only in a host that calls share, and
  only in an empty one is one of them dropped.

All of this holds of source texts whose calls have their opening parentheses in code.
-/

namespace SourceStamp

/-! ## Calls -/

namespace MonitoredCall

/-- The object literal that takes in the stamp of a call. -/
def host? (source : Text) (call : MonitoredCall) : Option ObjectLiteral :=
  Stamp.host? call.kind (ArgumentList.find source call.openParen)

/-- The stamps of two calls go into the same object literal. -/
def SharesHost (source : Text) (call call' : MonitoredCall) : Prop :=
  ∃ o o', call.host? source = some o ∧ call'.host? source = some o' ∧ o.closeBrace = o'.closeBrace

/-- The stamps of two calls replace the same object literal. -/
def SharesEmptyHost (source : Text) (call call' : MonitoredCall) : Prop :=
  ∃ o o', call.host? source = some o ∧ call'.host? source = some o' ∧
    o.closeBrace = o'.closeBrace ∧ o.isEmpty = true

/-- Every bracket that closes among the arguments of a call closes one of them. -/
def PairsBrackets (source : Text) (call : MonitoredCall) : Prop :=
  ∀ p, ¬ Stray (ArgumentList.find source call.openParen).text p

/-- The edit that stamps a call of a source text. -/
def edit? (source : Text) (path : Option Text) (call : MonitoredCall) : Option Edit :=
  Stamp.editFor call.kind (ArgumentList.find source call.openParen) (stampedPath path)
    ((LineIndex.ofSource source).lineOf call.start)

variable {source : Text} {names : MonitoredNames} {path : Option Text} {call : MonitoredCall}

/-- An opening parenthesis of a call whose lexical state is code stands in code. -/
theorem openParen_codeAt (h : call ∈ findAll source names)
    (hparen : classify source call.openParen = .code) : CodeAt source call.openParen '(' := by
  have hget := (text_at h).getElem_openParen
  refine ⟨hget, inCode_of_classify hparen ?_⟩
  rw [hget]
  simp [Reading.IsSecond]

/-- **The edit of a call** lands between its parentheses. -/
theorem exists_landsAt (h : call ∈ findAll source names)
    (hparen : classify source call.openParen = .code) {e : Edit}
    (he : call.edit? source path = some e) :
    ∃ closed p q t, Balanced source call.openParen closed ∧
      Stamp.LandsAt source call.openParen closed call.kind e p q t := by
  obtain ⟨close, hclose, -⟩ := Stamp.exists_editForm he
  obtain ⟨closed, -, hb⟩ := ArgumentList.balanced_of_find (openParen_codeAt h hparen) hclose
  obtain ⟨p, q, t, hlands⟩ := Stamp.LandsAt.of_editFor hb he
  exact ⟨closed, p, q, t, hb, hlands⟩

/-- A call with a host has balanced parentheses. -/
theorem exists_balanced_of_host (h : call ∈ findAll source names)
    (hparen : classify source call.openParen = .code) {o : ObjectLiteral}
    (ho : call.host? source = some o) :
    ∃ closed, Balanced source call.openParen closed ∧
      (ArgumentList.find source call.openParen).layout.lastObject? = some o := by
  cases hkind : call.kind with
  | hook =>
    rw [host?, hkind, Stamp.host?] at ho
    obtain ⟨close, hclose, ho⟩ := Option.bind_eq_some_iff.mp ho
    obtain ⟨closed, -, hb⟩ := ArgumentList.balanced_of_find (openParen_codeAt h hparen) hclose
    exact ⟨closed, hb, ho⟩
  | wrapper | method =>
    rw [host?, hkind, Stamp.host?] at ho
    cases ho

/-- A call with a host takes a stamp. -/
theorem exists_edit_of_host {o : ObjectLiteral} (h : call.host? source = some o)
    (path : Option Text) : ∃ e, call.edit? source path = some e := by
  cases hkind : call.kind with
  | hook =>
    rw [host?, hkind, Stamp.host?] at h
    obtain ⟨close, hclose, -⟩ := Option.bind_eq_some_iff.mp h
    rw [edit?, hkind, Stamp.editFor, hclose]
    exact ⟨_, rfl⟩
  | wrapper | method =>
    rw [host?, hkind, Stamp.host?] at h
    cases h

theorem sharesHost_of_sharesEmptyHost {call' : MonitoredCall}
    (h : call.SharesEmptyHost source call') : call.SharesHost source call' := by
  obtain ⟨o, o', ho, ho', heq, -⟩ := h
  exact ⟨o, o', ho, ho', heq⟩

section TwoCalls

variable {call' : MonitoredCall} {e e' : Edit}

/-- The edits of two calls have the same position exactly when the calls share a host. -/
theorem position_eq_iff (h : call ∈ findAll source names)
    (hparen : classify source call.openParen = .code) (h' : call' ∈ findAll source names)
    (hparen' : classify source call'.openParen = .code) (hne : call.openParen ≠ call'.openParen)
    (he : call.edit? source path = some e) (he' : call'.edit? source path = some e') :
    e.position = e'.position ↔ call.SharesHost source call' := by
  obtain ⟨closed, p, q, t, hb, hlands⟩ := exists_landsAt h hparen he
  obtain ⟨closed', p', q', t', hb', hlands'⟩ := exists_landsAt h' hparen' he'
  rw [hlands.position_eq_iff hb hb' hlands' hne]
  exact hlands.target_eq_iff hb hb' hlands' hne

theorem stop_eq_of_sharesHost (h : call ∈ findAll source names)
    (hparen : classify source call.openParen = .code) (h' : call' ∈ findAll source names)
    (hparen' : classify source call'.openParen = .code) (hne : call.openParen ≠ call'.openParen)
    (he : call.edit? source path = some e) (he' : call'.edit? source path = some e')
    (hshare : call.SharesHost source call') : e.stop = e'.stop := by
  obtain ⟨closed, p, q, t, hb, hlands⟩ := exists_landsAt h hparen he
  obtain ⟨closed', p', q', t', hb', hlands'⟩ := exists_landsAt h' hparen' he'
  have heq := (hlands.target_eq_iff hb hb' hlands' hne).mpr hshare
  rw [hlands.stop_eq, hlands'.stop_eq,
    (hlands.landing.eq_of_target_eq hb hb' hlands'.landing hne heq).2]

/-- They are clear of each other exactly when the calls share no empty host. -/
theorem clear_iff (h : call ∈ findAll source names)
    (hparen : classify source call.openParen = .code) (h' : call' ∈ findAll source names)
    (hparen' : classify source call'.openParen = .code) (hne : call.openParen ≠ call'.openParen)
    (he : call.edit? source path = some e) (he' : call'.edit? source path = some e') :
    e.Clear e' ↔ ¬ call.SharesEmptyHost source call' := by
  obtain ⟨closed, p, q, t, hb, hlands⟩ := exists_landsAt h hparen he
  obtain ⟨closed', p', q', t', hb', hlands'⟩ := exists_landsAt h' hparen' he'
  have htarget : t = t' ↔ call.SharesHost source call' :=
    hlands.target_eq_iff hb hb' hlands' hne
  by_cases heq : t = t'
  · obtain ⟨o, o', ho, ho', hclose⟩ := htarget.mp heq
    rw [hlands.clear_iff_of_host hb hb' hlands' hne ho heq]
    constructor
    · rintro hfilled ⟨a, a', ha, -, -, hempty⟩
      rw [ho] at ha
      injection ha with ha
      rw [ha, hempty] at hfilled
      cases hfilled
    · intro hshare
      exact Bool.eq_false_iff.mpr fun hempty => hshare ⟨o, o', ho, ho', hclose, hempty⟩
  · refine ⟨fun _ hshare => heq (htarget.mpr (sharesHost_of_sharesEmptyHost hshare)), ?_⟩
    intro _
    exact hlands.clear_of_ne hb hb' hlands' heq

/-- A call that opens later shares a host only if a bracket among its arguments closes none of
them. -/
theorem not_pairsBrackets_of_sharesHost (h : call ∈ findAll source names)
    (hparen : classify source call.openParen = .code) (h' : call' ∈ findAll source names)
    (hparen' : classify source call'.openParen = .code) (hlt : call.openParen < call'.openParen)
    (hshare : call.SharesHost source call') : ¬ call'.PairsBrackets source := by
  obtain ⟨o, o', ho, ho', heq⟩ := hshare
  obtain ⟨closed, hb, hlast⟩ := exists_balanced_of_host h hparen ho
  obtain ⟨closed', hb', hlast'⟩ := exists_balanced_of_host h' hparen' ho'
  obtain ⟨k, -, hclose, hdepth⟩ := hb.lastObject_depth hlast
  obtain ⟨k', hk', hclose', hdepth'⟩ := hb'.lastObject_depth hlast'
  have hplace : call.openParen + 1 + k = call'.openParen + 1 + k' := by
    rw [hclose, hclose'] at heq
    exact Int.ofNat_inj.mp heq
  obtain ⟨p, hstray⟩ := exists_stray hb' hlt hk' hplace hdepth hdepth'
  exact fun hpairs => hpairs p hstray

end TwoCalls

end MonitoredCall

/-! ## The plan -/

open MonitoredCall (findAll)

section Plan

variable {names : MonitoredNames} {source : Text}

theorem plan_eq (names : MonitoredNames) (source : Text) (path : Option Text) :
    plan names source path = (findAll source names).filterMap (·.edit? source path) := by
  simp only [plan, callsWithArguments, List.filterMap_map]
  rfl

/-- A relation between the edits of any two calls is one between the edits of a plan. -/
theorem plan_pairwise_iff {path : Option Text} {R : Edit → Edit → Prop}
    {S : MonitoredCall → MonitoredCall → Prop}
    (hRS : ∀ call ∈ findAll source names, ∀ call' ∈ findAll source names,
      call.openParen ≠ call'.openParen →
        ((∀ e, call.edit? source path = some e → ∀ e', call'.edit? source path = some e' → R e e') ↔
          S call call')) :
    (plan names source path).Pairwise R ↔ (findAll source names).Pairwise S := by
  have hopen := MonitoredCall.findAll_pairwise source names
  rw [plan_eq, List.pairwise_filterMap]
  constructor
  · intro h
    exact (h.and hopen).imp_of_mem fun hcall hcall' h =>
      (hRS _ hcall _ hcall' (Nat.ne_of_lt h.2)).mp h.1
  · intro h
    exact (h.and hopen).imp_of_mem fun hcall hcall' h =>
      (hRS _ hcall _ hcall' (Nat.ne_of_lt h.2)).mpr h.1

/-- Every edit belongs to a call of its own, and that call has a closing parenthesis. -/
theorem exists_stamped_calls (names : MonitoredNames) (source : Text) (path : Option Text) :
    ∃ stamped : List MonitoredCall, stamped.Sublist (findAll source names) ∧
      (∀ call ∈ stamped, (ArgumentList.find source call.openParen).closeParen.isSome = true) ∧
      stamped.map (·.edit? source path) = (plan names source path).map some := by
  refine ⟨(findAll source names).filter fun call => (call.edit? source path).isSome,
    List.filter_sublist, ?_, ?_⟩
  · intro call hcall
    obtain ⟨e, he⟩ := Option.isSome_iff_exists.mp (List.mem_filter.mp hcall).2
    obtain ⟨close, hclose, -⟩ := Stamp.exists_editForm he
    rw [hclose]
    rfl
  · rw [plan_eq, List.map_filterMap_some_eq_filter_map_isSome, List.filter_map]
    rfl

/-- Where nothing is dropped, the edits of a stamped text are those of its plan, in order. -/
theorem stamp_edits_eq {path : Option Text} (hskip : isSkipped names source = false)
    (h : (Edit.applyAll source (plan names source path)).dropped = []) :
    (stamp names source path).edits = Edit.ordered (plan names source path) := by
  rw [stamp, hskip, if_neg Bool.false_ne_true]
  exact Edit.applied_of_dropped_eq_nil h

variable (path : Option Text)
  (hparen : ∀ call ∈ findAll source names, classify source call.openParen = .code)

include hparen

theorem plan_fits : ∀ e ∈ plan names source path, e.Fits source := by
  intro e he
  rw [plan_eq] at he
  obtain ⟨call, hcall, hedit⟩ := List.mem_filterMap.mp he
  obtain ⟨closed, p, q, t, hb, hlands⟩ :=
    MonitoredCall.exists_landsAt hcall (hparen call hcall) hedit
  exact hlands.fits hb

theorem plan_position_ne_iff :
    (plan names source path).Pairwise (fun e e' => e.position ≠ e'.position) ↔
      (findAll source names).Pairwise fun call call' => ¬ call.SharesHost source call' := by
  refine plan_pairwise_iff fun call hcall call' hcall' hne => ⟨?_, ?_⟩
  · intro h hshare
    obtain ⟨o, o', ho, ho', -⟩ := id hshare
    obtain ⟨e, he⟩ := MonitoredCall.exists_edit_of_host ho path
    obtain ⟨e', he'⟩ := MonitoredCall.exists_edit_of_host ho' path
    exact h e he e' he' ((MonitoredCall.position_eq_iff hcall (hparen _ hcall) hcall'
      (hparen _ hcall') hne he he').mpr hshare)
  · intro h e he e' he' heq
    exact h ((MonitoredCall.position_eq_iff hcall (hparen _ hcall) hcall' (hparen _ hcall') hne he
      he').mp heq)

theorem plan_clear_iff :
    (plan names source path).Pairwise Edit.Clear ↔
      (findAll source names).Pairwise fun call call' => ¬ call.SharesEmptyHost source call' := by
  refine plan_pairwise_iff fun call hcall call' hcall' hne => ⟨?_, ?_⟩
  · intro h hshare
    obtain ⟨o, o', ho, ho', -⟩ := id hshare
    obtain ⟨e, he⟩ := MonitoredCall.exists_edit_of_host ho path
    obtain ⟨e', he'⟩ := MonitoredCall.exists_edit_of_host ho' path
    exact (MonitoredCall.clear_iff hcall (hparen _ hcall) hcall' (hparen _ hcall') hne he he').mp
      (h e he e' he') hshare
  · intro h e he e' he'
    exact (MonitoredCall.clear_iff hcall (hparen _ hcall) hcall' (hparen _ hcall') hne he he').mpr h

/-- An edit is dropped exactly when two calls share an empty host. -/
theorem plan_dropped_eq_nil_iff :
    (Edit.applyAll source (plan names source path)).dropped = [] ↔
      (findAll source names).Pairwise fun call call' => ¬ call.SharesEmptyHost source call' := by
  have hfits := plan_fits path hparen
  constructor
  · intro h
    have hplaces := Edit.pairwise_of_dropped_eq_nil hfits h
    rw [plan_eq, List.pairwise_filterMap] at hplaces
    refine (hplaces.and (MonitoredCall.findAll_pairwise source names)).imp_of_mem ?_
    intro call call' hcall hcall' ⟨hplace, hlt⟩ hshare
    obtain ⟨o, o', ho, ho', -⟩ := id hshare
    obtain ⟨e, he⟩ := MonitoredCall.exists_edit_of_host ho path
    obtain ⟨e', he'⟩ := MonitoredCall.exists_edit_of_host ho' path
    have hne := Nat.ne_of_lt hlt
    have hhost := MonitoredCall.sharesHost_of_sharesEmptyHost hshare
    have hposition := (MonitoredCall.position_eq_iff hcall (hparen _ hcall) hcall' (hparen _ hcall')
      hne he he').mpr hhost
    have hstop := MonitoredCall.stop_eq_of_sharesHost hcall (hparen _ hcall) hcall'
      (hparen _ hcall') hne he he' hhost
    refine (MonitoredCall.clear_iff hcall (hparen _ hcall) hcall' (hparen _ hcall') hne he he').mp
      ?_ hshare
    have hle := hplace e he e' he' hposition
    constructor <;> omega
  · exact fun h => Edit.dropped_eq_nil_of_clear hfits ((plan_clear_iff path hparen).mpr h)

/-- No two calls share a host where the brackets among the arguments of each are paired. -/
theorem pairwise_not_sharesHost
    (hpairs : ∀ call ∈ findAll source names, call.PairsBrackets source) :
    (findAll source names).Pairwise fun call call' => ¬ call.SharesHost source call' := by
  refine (MonitoredCall.findAll_pairwise source names).imp_of_mem ?_
  intro call call' hcall hcall' hlt hshare
  have hstray := MonitoredCall.not_pairsBrackets_of_sharesHost hcall (hparen call hcall) hcall'
    (hparen call' hcall') hlt hshare
  exact hstray (hpairs call' hcall')

/-- **No planned stamp is lost**, apart from shared hosts. Where the opening parentheses of all
calls stand in code:

- every edit lies within the text, and each belongs to a balanced call of its own;
- their positions are distinct exactly when no two calls share a host;
- none is dropped exactly when no two calls share an empty host, and then what they delete does not
  overlap, and the edits applied are the planned ones in order of position;
- no host is shared where the brackets among the arguments of each call are paired. -/
theorem plan_is_applied :
    (∀ e ∈ plan names source path, e.Fits source) ∧
    (∃ stamped : List MonitoredCall, stamped.Sublist (findAll source names) ∧
      (∀ call ∈ stamped, (ArgumentList.find source call.openParen).closeParen.isSome = true) ∧
      stamped.map (·.edit? source path) = (plan names source path).map some) ∧
    ((plan names source path).Pairwise (fun e e' => e.position ≠ e'.position) ↔
      (findAll source names).Pairwise fun call call' => ¬ call.SharesHost source call') ∧
    ((Edit.applyAll source (plan names source path)).dropped = [] ↔
      (findAll source names).Pairwise fun call call' => ¬ call.SharesEmptyHost source call') ∧
    ((findAll source names).Pairwise (fun call call' => ¬ call.SharesEmptyHost source call') →
      (plan names source path).Pairwise (fun e e' => e.stop ≤ e'.position ∨ e'.stop ≤ e.position) ∧
      (isSkipped names source = false →
        (stamp names source path).edits = Edit.ordered (plan names source path))) ∧
    ((∀ call ∈ findAll source names, call.PairsBrackets source) →
      (findAll source names).Pairwise fun call call' => ¬ call.SharesHost source call') := by
  refine ⟨plan_fits path hparen, exists_stamped_calls names source path,
    plan_position_ne_iff path hparen, plan_dropped_eq_nil_iff path hparen, fun hshare => ⟨?_, ?_⟩,
    pairwise_not_sharesHost hparen⟩
  · refine ((plan_clear_iff path hparen).mpr hshare).imp fun {e e'} hclear => ?_
    rcases Int.le_total e.position e'.position with hle | hle
    · exact .inl (hclear.1 hle)
    · exact .inr (hclear.2 hle)
  · exact fun hskip => stamp_edits_eq hskip ((plan_dropped_eq_nil_iff path hparen).mpr hshare)

end Plan

/-- Calls inside each other's arguments are both stamped. -/
theorem plan_is_applied_nested :
    (stamp .soleHook "use(use())".toList none).edits =
      Edit.ordered (plan .soleHook "use(use())".toList none) := by
  have hparen : ∀ call ∈ findAll "use(use())".toList .soleHook,
      classify "use(use())".toList call.openParen = .code := by
    simp only [MonitoredCall.findAll_eq, Occurrence.isCall, classify_eq]
    decide +kernel
  have hhost : ∀ call ∈ findAll "use(use())".toList .soleHook,
      call.host? "use(use())".toList = none := by
    simp only [MonitoredCall.findAll_eq, Occurrence.isCall, classify_eq, MonitoredCall.host?,
      Stamp.host?, ArgumentList.find, Scanner.closingParen_eq, Scanner.visits_eq,
      ArgumentList.layout, ArgumentLayout.ofText]
    decide +kernel
  obtain ⟨-, -, -, -, happlied, -⟩ := plan_is_applied none hparen
  refine (happlied ?_).2 (by decide +kernel)
  refine (MonitoredCall.findAll_pairwise _ _).imp_of_mem ?_
  intro call call' hcall _ _ hshare
  obtain ⟨o, -, ho, -⟩ := hshare
  rw [hhost _ hcall] at ho
  cases ho

/-- The bracket in the regular expression closes the inner call's parenthesis for the outer call, so
that both take the same braces for their last object argument. One of the two stamps is lost. -/
theorem plan_loses_shared :
    (∀ call ∈ findAll "use(use(/]/,\x7b\x7d,))".toList .soleHook,
      classify "use(use(/]/,\x7b\x7d,))".toList call.openParen = .code) ∧
    (plan .soleHook "use(use(/]/,\x7b\x7d,))".toList none).length = 2 ∧
    ¬ (plan .soleHook "use(use(/]/,\x7b\x7d,))".toList none).Pairwise
      (fun e e' => e.position ≠ e'.position) ∧
    (stamp .soleHook "use(use(/]/,\x7b\x7d,))".toList none).edits ≠
      Edit.ordered (plan .soleHook "use(use(/]/,\x7b\x7d,))".toList none) := by
  have hplan : plan .soleHook "use(use(/]/,\x7b\x7d,))".toList none =
      [.replace 12 14 (Stamp.object [] 1), .replace 12 14 (Stamp.object [] 1)] := by
    simp only [plan_eq, MonitoredCall.findAll_eq, Occurrence.isCall, classify_eq,
      MonitoredCall.edit?, ArgumentList.find, Scanner.closingParen_eq, Scanner.visits_eq,
      Stamp.editFor, ArgumentList.layout, ArgumentLayout.ofText]
    decide +kernel
  refine ⟨?_, by rw [hplan]; rfl, by rw [hplan]; decide +kernel, ?_⟩
  · simp only [MonitoredCall.findAll_eq, Occurrence.isCall, classify_eq]
    decide +kernel
  · rw [stamp, hplan, if_neg (by decide +kernel)]
    dsimp only
    rw [Edit.applyAll_eq, Edit.ordered, List.mergeSort_of_pairwise (by decide +kernel)]
    decide +kernel

end SourceStamp
