import SourceStamp.Proofs.Call.Grammar
import SourceStamp.Proofs.Stamping.Plan

/-!
# Markers

Before the calls of a source text are searched, the text is asked for the markers of the monitored
names, and left alone if it holds none. Nothing is lost by that: whatever starts a call holds a
marker.

- `IsCallee.exists_marker`, `MonitoredCall.exists_marker`: every callee starts with a marker, so
  every call shows one.
- `stampUnscreened`: the stamped text when markers are not asked for.
- `stamp_eq_unscreened`: the markers save work, and that only.
-/

namespace SourceStamp

open MonitoredCall (findAll)

theorem MonitoredNames.mem_markers {names : MonitoredNames} {m : Text} :
    m ∈ names.markers ↔
      m ∈ names.groups.hooks ∨ m ∈ names.groups.wrappers ∨
        ∃ receiver ∈ names.groups.receivers, receiver ++ ['.'] = m := by
  rw [markers, List.mem_append, List.mem_append, List.mem_map, or_assoc]

/-- A callee starts with a marker: a hook and a wrapper is one, and a method has its receiver and
the point. -/
theorem IsCallee.exists_marker {names : MonitoredNames} {name : Text} {kind : CalleeKind}
    (h : IsCallee names.groups name kind) : ∃ m ∈ names.markers, m <+: name := by
  simp only [MonitoredNames.mem_markers]
  cases h with
  | hook h => exact ⟨name, .inl h, List.prefix_rfl⟩
  | wrapper h => exact ⟨name, .inr (.inl h), List.prefix_rfl⟩
  | @method receiver method hreceiver _ =>
    refine ⟨receiver ++ ['.'], .inr (.inr ⟨receiver, hreceiver, rfl⟩), method, ?_⟩
    rw [List.append_assoc, List.singleton_append]

/-- Every call shows a marker. -/
theorem MonitoredCall.exists_marker {names : MonitoredNames} {source : Text} {call : MonitoredCall}
    (h : call ∈ findAll source names) : ∃ m ∈ names.markers, m <:+: source := by
  obtain ⟨m, hm, hprefix⟩ := (isCallee_of_mem_findAll h).exists_marker
  obtain ⟨after, hdrop⟩ := (text_at h).drop_start
  have hname : call.name <:+: source.drop call.start := hdrop ▸ (List.prefix_append _ _).isInfix
  exact ⟨m, hm, hprefix.isInfix.trans (hname.trans (List.drop_suffix _ _).isInfix)⟩

/-- The stamped source text, when no marker is asked for. -/
def stampUnscreened (names : MonitoredNames) (source : Text) (path : Option Text) : Stamping :=
  if declaresHook source names then .unchanged source
  else
    let outcome := Edit.applyAll source (plan names source path)
    ⟨outcome.text, outcome.applied⟩

section Unmarked

variable {names : MonitoredNames} {source : Text}
  (hmarkers : ∀ m ∈ names.markers, ¬ m <:+: source)

include hmarkers

theorem findAll_eq_nil_of_unmarked : findAll source names = [] := by
  refine List.eq_nil_iff_forall_not_mem.mpr ?_
  intro call hcall
  obtain ⟨m, hm, hinfix⟩ := MonitoredCall.exists_marker hcall
  exact hmarkers m hm hinfix

theorem plan_eq_nil_of_unmarked (path : Option Text) : plan names source path = [] := by
  rw [plan_eq, findAll_eq_nil_of_unmarked hmarkers, List.filterMap_nil]

/-- A text without markers is left alone, whether it is asked for them or not. -/
theorem stampUnscreened_eq_of_unmarked (path : Option Text) :
    stampUnscreened names source path = .unchanged source := by
  rw [stampUnscreened, plan_eq_nil_of_unmarked hmarkers, Edit.applyAll_nil]
  exact ite_self _

end Unmarked

/-- **Markers lose no call**: a source text in which none occurs shows no call and has nothing
planned for it, so that the stamped text is always what it would be if no marker were asked for. -/
theorem stamp_eq_unscreened (names : MonitoredNames) (source : Text) :
    ((∀ m ∈ names.markers, ¬ m <:+: source) →
      findAll source names = [] ∧ ∀ path, plan names source path = []) ∧
    ∀ path, stamp names source path = stampUnscreened names source path := by
  refine ⟨fun h => ⟨findAll_eq_nil_of_unmarked h, plan_eq_nil_of_unmarked h⟩, fun path => ?_⟩
  by_cases hmarked : names.markers.any (Text.occurs · source) = true
  · rw [stamp, isSkipped, hmarked, Bool.not_true, Bool.false_or]
    rfl
  · have hunmarked : ∀ m ∈ names.markers, ¬ m <:+: source := by
      intro m hm hinfix
      exact hmarked (List.any_eq_true.mpr ⟨m, hm, Text.occurs_iff.mpr hinfix⟩)
    rw [stampUnscreened_eq_of_unmarked hunmarked, stamp, isSkipped, Bool.eq_false_iff.mpr hmarked]
    rfl

/-- A receiver without its point is no marker. -/
theorem stamp_eq_unscreened_receiver :
    findAll "logger .info(x)".toList .standard = [] ∧
      ∀ path, plan .standard "logger .info(x)".toList path = [] := by
  refine (stamp_eq_unscreened .standard "logger .info(x)".toList).1 ?_
  intro m hm hinfix
  revert m
  decide +kernel

end SourceStamp
