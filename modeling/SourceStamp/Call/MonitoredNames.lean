import SourceStamp.Text.Identifier

/-!
# Monitored names

Which calls are watched: hooks (`useLogger(...)`), wrappers (`withLogger(Component)`), and methods
on certain receivers (`logger.info(...)`).

- `NameGroups`: the four groups of names as they are given.
- `MonitoredNames`: groups that passed the checks: every name is an identifier, and no name is both
  a hook and a wrapper.
- `MonitoredNames.ofGroups?`: the checks, and what they find wrong.
- `MonitoredNames.markers`: texts of which every watched call holds one.
-/

namespace SourceStamp

/-- How a watched call is treated (`CallKind`). -/
inductive CalleeKind where
  /-- A call that yields a value, such as `useLogger(...)`. -/
  | hook
  /-- A call that wraps a component, such as `withLogger(Component)`. -/
  | wrapper
  /-- A method call on a receiver, such as `logger.info(...)`. -/
  | method
  deriving DecidableEq, Repr

/-- The four groups of monitored names. -/
inductive NameGroup where
  | hooks
  | wrappers
  | receivers
  | methods
  deriving DecidableEq, Repr

namespace NameGroup

/-- The groups in the order in which they are checked. -/
def all : List NameGroup := [hooks, wrappers, receivers, methods]

/-- The name of a group. -/
def label : NameGroup → String
  | hooks => "hooks"
  | wrappers => "wrappers"
  | receivers => "receivers"
  | methods => "methods"

end NameGroup

/-- Whether a name can be monitored: an identifier, in which a dollar sign counts as a letter
(`_is_identifier`). -/
def isMonitorable (name : Text) : Bool :=
  Text.isIdentifier (name.map fun c => if c = '$' then '_' else c)

/-- The names of the four groups. -/
structure NameGroups where
  /-- Names of calls that yield a value. -/
  hooks : List Text
  /-- Names of calls that wrap a component. -/
  wrappers : List Text
  /-- Receivers of method calls. -/
  receivers : List Text
  /-- Methods watched on those receivers. -/
  methods : List Text
  deriving DecidableEq, Repr

namespace NameGroups

/-- The names of one group. -/
def get (g : NameGroups) : NameGroup → List Text
  | .hooks => g.hooks
  | .wrappers => g.wrappers
  | .receivers => g.receivers
  | .methods => g.methods

/-- The groups that are watched unless others are given (`DEFAULT_HOOKS`, `DEFAULT_WRAPPERS`,
`DEFAULT_RECEIVERS`, `DEFAULT_METHODS`). -/
def standard : NameGroups where
  hooks := ["useCallbackLogger".toList, "useConditionalLogger".toList, "useEffectLogger".toList,
    "useLifecycleLogger".toList, "useLogger".toList, "useMemoLogger".toList,
    "usePropChangeLogger".toList, "useRenderLogger".toList, "useStateLogger".toList,
    "useTimer".toList, "useWhyDidYouRender".toList]
  wrappers := ["withLogger".toList, "withLoggerRef".toList]
  receivers := ["log".toList, "logger".toList]
  methods := ["debug".toList, "error".toList, "info".toList, "log".toList, "trace".toList,
    "warn".toList]

/-- Each name of a group once, in ascending order. -/
def normalized (g : NameGroups) : NameGroups where
  hooks := Text.sorted (Text.distinct g.hooks)
  wrappers := Text.sorted (Text.distinct g.wrappers)
  receivers := Text.sorted (Text.distinct g.receivers)
  methods := Text.sorted (Text.distinct g.methods)

/-- The first name that cannot be monitored, with its group. -/
def badName? (g : NameGroups) : Option (NameGroup × Text) :=
  NameGroup.all.findSome? fun k => ((g.get k).find? (!isMonitorable ·)).map (k, ·)

/-- The names that are both hooks and wrappers. -/
def overlap (g : NameGroups) : List Text := g.hooks.filter (g.wrappers.contains ·)

theorem isMonitorable_of_badName?_eq_none {g : NameGroups} (h : g.badName? = none)
    {k : NameGroup} {name : Text} (hn : name ∈ g.get k) : isMonitorable name = true := by
  have hk : k ∈ NameGroup.all := by cases k <;> decide
  have := List.findSome?_eq_none_iff.1 h k hk
  have := List.find?_eq_none.1 (Option.map_eq_none_iff.1 this) name hn
  simpa using this

theorem not_mem_wrappers_of_overlap_eq_nil {g : NameGroups} (h : g.overlap = []) {name : Text}
    (hn : name ∈ g.hooks) : name ∉ g.wrappers := by
  have := List.filter_eq_nil_iff.1 h name hn
  simpa using this

end NameGroups

/-- What can be wrong with groups of names. -/
inductive NamesError where
  /-- A name of the group is no identifier. -/
  | notAnIdentifier (group : NameGroup) (name : Text)
  /-- The names are both hooks and wrappers. -/
  | overlap (names : List Text)
  deriving DecidableEq, Repr

/-- Groups of names that passed the checks (`MonitoredNameSet`). -/
structure MonitoredNames where
  /-- The names of the groups. -/
  groups : NameGroups
  /-- Every name is an identifier. -/
  identifiers : groups.badName? = none
  /-- No name is both a hook and a wrapper. -/
  disjoint : groups.overlap = []
  deriving DecidableEq, Repr

namespace MonitoredNames

/-- The groups, put in order and checked: first that every name is an identifier, then that hooks
and wrappers are disjoint (`MonitoredNameSet.__post_init__`). -/
def ofGroups? (g : NameGroups) : Except NamesError MonitoredNames :=
  let g := g.normalized
  match h : g.badName? with
  | some (group, name) => .error (.notAnIdentifier group name)
  | none => if h' : g.overlap = [] then .ok ⟨g, h, h'⟩ else .error (.overlap g.overlap)

/-- The names that are watched unless others are given. -/
def standard : MonitoredNames := ⟨.standard, by decide +kernel, by decide +kernel⟩

/-- Texts of which every watched call holds one; a source without any of them has no such call
(`MonitoredNameSet.markers`). -/
def markers (n : MonitoredNames) : List Text :=
  n.groups.hooks ++ n.groups.wrappers ++ n.groups.receivers.map (· ++ ['.'])

/-- The longest name first, and names of one length in ascending order (`_alternation`). -/
def longestFirst (names : List Text) : List Text :=
  names.mergeSort fun a b =>
    decide (b.length < a.length) || (a.length == b.length && Text.isAtMost a b)

/-- The texts that start a watched call, with their kinds: methods on their receivers, then hooks,
then wrappers, each group from its longest name on (`compile_call_pattern`). -/
def callees (n : MonitoredNames) : List (Text × CalleeKind) :=
  ((longestFirst n.groups.receivers).flatMap fun receiver =>
    (longestFirst n.groups.methods).map fun method => (receiver ++ '.' :: method, .method)) ++
  (longestFirst n.groups.hooks).map (·, .hook) ++
  (longestFirst n.groups.wrappers).map (·, .wrapper)

end MonitoredNames
end SourceStamp
