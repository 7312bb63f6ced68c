import SourceStamp.Proofs.Call.Declaration
import SourceStamp.Proofs.Call.Search

/-!
# The grammar of calls

The search for calls tries one callee after the other and leaves out what an earlier occurrence
covers. Where names are words, no method has the name of a hook or wrapper, and nothing in the source
text looks like type arguments, neither the order nor the covering plays a part.

- `IsCallee`: how a monitored callee is written.
- `MonitoredCall.Spelled`, `MonitoredCall.Reads`: what the source text shows at a call.
- `name_eq_of_opening`, `IsCallee.kind_eq`: a text starts with one callee at most.
- `MonitoredCall.Spelled.not_covered`: no other occurrence reaches over a callee.
- `MonitoredCall.findAll_grammar`: the search finds the calls of the grammar, and those only.
-/

namespace SourceStamp

open Text (isBlank isWord isBoundary)

/-- How a monitored callee is written. -/
inductive IsCallee (g : NameGroups) : Text → CalleeKind → Prop where
  /-- The name of a hook. -/
  | hook {name : Text} (h : name ∈ g.hooks) : IsCallee g name .hook
  /-- The name of a wrapper. -/
  | wrapper {name : Text} (h : name ∈ g.wrappers) : IsCallee g name .wrapper
  /-- A method on a receiver. -/
  | method {receiver method : Text} (hreceiver : receiver ∈ g.receivers)
      (hmethod : method ∈ g.methods) : IsCallee g (receiver ++ '.' :: method) .method

/-- How a call is spelled: a callee that starts where no word goes on, then blanks and the opening
parenthesis. -/
structure MonitoredCall.Spelled (names : MonitoredNames) (source : Text) (call : MonitoredCall) :
    Prop where
  callee : IsCallee names.groups call.name call.kind
  text : ∃ blanks after, source.drop call.start = call.name ++ (blanks ++ '(' :: after) ∧
    (∀ c ∈ blanks, isBlank c = true) ∧
    call.openParen = call.start + call.name.length + blanks.length
  stop_eq : call.stop = call.openParen + 1
  boundary : call.start ≠ 0 → ∀ c, source[call.start - 1]? = some c → isWord c = false

/-- What a source text shows at a call: its spelling, in code, where no keyword declares it. -/
structure MonitoredCall.Reads (names : MonitoredNames) (source : Text) (call : MonitoredCall) :
    Prop extends call.Spelled names source where
  inCode : classify source call.start = .code
  not_declared : ∀ k, ¬ DeclaredAt source k call.start

/-! ## Callees -/

theorem mem_callees_iff {names : MonitoredNames} {name : Text} {kind : CalleeKind} :
    (name, kind) ∈ names.callees ↔ IsCallee names.groups name kind := by
  simp only [MonitoredNames.callees, List.mem_append, List.mem_flatMap, List.mem_map,
    mem_longestFirst, Prod.mk.injEq]
  constructor
  · rintro ((⟨receiver, hreceiver, method, hmethod, rfl, rfl⟩ | ⟨n, hn, rfl, rfl⟩) |
      ⟨n, hn, rfl, rfl⟩)
    · exact .method hreceiver hmethod
    · exact .hook hn
    · exact .wrapper hn
  · rintro (hn | hn | ⟨hreceiver, hmethod⟩)
    · exact .inl (.inr ⟨_, hn, rfl, rfl⟩)
    · exact .inr ⟨_, hn, rfl, rfl⟩
    · exact .inl (.inl ⟨_, hreceiver, _, hmethod, rfl, rfl⟩)

/-- A call that is found has a callee for its name. -/
theorem MonitoredCall.isCallee_of_mem_findAll {names : MonitoredNames} {source : Text}
    {call : MonitoredCall} (h : call ∈ findAll source names) :
    IsCallee names.groups call.name call.kind := by
  obtain ⟨o, ho, -, rfl⟩ := mem_findAll.mp h
  obtain ⟨-, hmem, -⟩ := occurrenceAt_eq_some ((occurrences_spec names source).found_at o ho).2
  exact mem_callees_iff.mp hmem

/-- A method is none of the names of a group: it holds a point. -/
theorem name_ne_method {names : MonitoredNames} {name receiver method : Text} {k : NameGroup}
    (h : name ∈ names.groups.get k) : name ≠ receiver ++ '.' :: method := by
  rintro rfl
  have hname := NameGroups.isMonitorable_of_badName?_eq_none names.identifiers h
  exact point_not_mem_of_isMonitorable hname (List.mem_append_right _ List.mem_cons_self)

/-- A name is of one kind. -/
theorem IsCallee.kind_eq {names : MonitoredNames} {name : Text} {kind kind' : CalleeKind}
    (h : IsCallee names.groups name kind) (h' : IsCallee names.groups name kind') :
    kind = kind' := by
  have hdisjoint := fun hook : name ∈ names.groups.hooks =>
    NameGroups.not_mem_wrappers_of_overlap_eq_nil names.disjoint hook
  generalize hname : name = name' at h'
  cases h with
  | hook h =>
    cases h' with
    | hook => rfl
    | wrapper h' => exact absurd (hname ▸ h') (hdisjoint h)
    | method => exact absurd hname (name_ne_method (k := .hooks) h)
  | wrapper h =>
    cases h' with
    | hook h' => exact absurd h (hdisjoint (hname ▸ h'))
    | wrapper => rfl
    | method => exact absurd hname (name_ne_method (k := .wrappers) h)
  | method =>
    cases h' with
    | hook h' => exact absurd hname.symm (name_ne_method (k := .hooks) h')
    | wrapper h' => exact absurd hname.symm (name_ne_method (k := .wrappers) h')
    | method => rfl

/-- A callee that is a method as a whole is none of another group. -/
theorem IsCallee.not_mem_methods {names : MonitoredNames}
    (hmethods : ∀ m ∈ names.groups.methods, m ∉ names.groups.hooks ∧ m ∉ names.groups.wrappers)
    {name : Text} {kind : CalleeKind} (h : IsCallee names.groups name kind) :
    name ∉ names.groups.methods := by
  intro hmem
  cases h with
  | hook h => exact (hmethods _ hmem).1 h
  | wrapper h => exact (hmethods _ hmem).2 h
  | method => exact name_ne_method (k := .methods) hmem rfl

theorem isWord_of_isBlank {c : Char} (h : isBlank c = true) : isWord c = false := by
  have hcodes : ∀ n ∈ blankCodes, isWord (Char.ofNat n) = false := by decide +kernel
  exact of_isBlank (P := fun c => isWord c = false) hcodes h

/-- No word stands between a callee and its parenthesis. -/
theorem isWord_of_opening {blanks after : Text} (hblanks : ∀ c ∈ blanks, isBlank c = true)
    {j : Nat} (hj : j ≤ blanks.length) {c : Char} (hc : (blanks ++ '(' :: after)[j]? = some c) :
    isWord c = false := by
  rcases Nat.eq_or_lt_of_le hj with rfl | hlt
  · rw [List.getElem?_append_right (Nat.le_refl _), Nat.sub_self] at hc
    obtain rfl := Option.some.inj hc
    decide +kernel
  · rw [List.getElem?_append_left hlt] at hc
    exact isWord_of_isBlank (hblanks c (List.mem_of_getElem? hc))

/-- A word up to the parenthesis belongs to the callee. -/
theorem lt_length_of_isWord {name blanks after : Text} (hblanks : ∀ c ∈ blanks, isBlank c = true)
    {i : Nat} (hi : i ≤ name.length + blanks.length) {c : Char}
    (hget : (name ++ (blanks ++ '(' :: after))[i]? = some c) (hc : isWord c = true) :
    i < name.length := by
  refine Nat.lt_of_not_le ?_
  intro hle
  rw [List.getElem?_append_right hle] at hget
  rw [isWord_of_opening hblanks (by omega) hget] at hc
  cases hc

/-! ## One callee at most -/

/-- A callee reaches as far as its characters do. -/
theorem takeWhile_isCalleeChar {name opening after : Text}
    (hname : ∀ c ∈ name, isCalleeChar c = true) (hopening : IsOpening opening) :
    (name ++ (opening ++ '(' :: after)).takeWhile isCalleeChar = name := by
  have hstop : ∀ c, (opening ++ '(' :: after).head? = some c → isCalleeChar c = false := by
    intro c hc
    cases opening with
    | nil =>
      obtain rfl := Option.some.inj hc
      decide
    | cons d rest =>
      obtain rfl := Option.some.inj hc
      rcases hopening with hblanks | hangle
      · exact isCalleeChar_of_isBlank (hblanks d List.mem_cons_self)
      · obtain rfl := Option.some.inj hangle
        decide
  rw [List.takeWhile_append_of_pos hname]
  cases hrest : opening ++ '(' :: after with
  | nil => exact List.append_nil name
  | cons c rest =>
    have hc := hstop c (by rw [hrest]; rfl)
    rw [List.takeWhile_cons_of_neg (Bool.eq_false_iff.mp hc), List.append_nil]

/-- A text starts with one callee at most. -/
theorem name_eq_of_opening {name name' opening opening' after after' : Text}
    (hname : ∀ c ∈ name, isCalleeChar c = true) (hname' : ∀ c ∈ name', isCalleeChar c = true)
    (hopening : IsOpening opening) (hopening' : IsOpening opening')
    (heq : name ++ (opening ++ '(' :: after) = name' ++ (opening' ++ '(' :: after')) :
    name = name' := by
  rw [← takeWhile_isCalleeChar hname hopening, heq, takeWhile_isCalleeChar hname' hopening']

/-- What stands after a callee opens an argument list. -/
theorem afterCallOpening_of_calleeAt {callees : List (Text × CalleeKind)} {t name after : Text}
    {kind : CalleeKind} (h : calleeAt callees t = some (name, kind, after)) :
    afterCallOpening (t.drop name.length) = some after := by
  rw [calleeAt_eq] at h
  obtain ⟨callee, -, htry⟩ := List.exists_of_findSome?_eq_some h
  unfold tryCallee at htry
  split at htry
  · obtain ⟨after', hafter, heq⟩ := Option.map_eq_some_iff.mp htry
    simp only [Prod.mk.injEq] at heq
    obtain ⟨rfl, -, rfl⟩ := heq
    exact hafter
  · cases htry

/-- The order in which callees are tried plays no part. -/
theorem IsCallee.calleeAt_eq_some {names : MonitoredNames} {name rest after : Text}
    {kind : CalleeKind} (h : IsCallee names.groups name kind)
    (hrest : afterCallOpening rest = some after) :
    calleeAt names.callees (name ++ rest) = some (name, kind, after) := by
  have htry : tryCallee (name ++ rest) (name, kind) = some (name, kind, after) := by
    rw [tryCallee, if_pos (List.isPrefixOf_iff_prefix.mpr (List.prefix_append _ _)),
      List.drop_left, hrest, Option.map_some]
  have hsome : (calleeAt names.callees (name ++ rest)).isSome = true := by
    rw [calleeAt_eq, List.findSome?_isSome_iff]
    exact ⟨_, mem_callees_iff.mpr h, by rw [htry]; rfl⟩
  obtain ⟨⟨name', kind', after'⟩, hfound⟩ := Option.isSome_iff_exists.mp hsome
  obtain ⟨hmem, opening', hshape', hopening'⟩ := exists_of_calleeAt hfound
  obtain ⟨opening, hshape, hopening⟩ := exists_of_afterCallOpening hrest
  obtain rfl : name = name' := name_eq_of_opening
    (names.callees_chars (mem_callees_iff.mpr h)).2 (names.callees_chars hmem).2
    hopening hopening' (hshape ▸ hshape')
  have hafter := afterCallOpening_of_calleeAt hfound
  rw [List.drop_left, hrest] at hafter
  rw [hfound, h.kind_eq (mem_callees_iff.mp hmem), Option.some.inj hafter]

/-- Blanks and a parenthesis open an argument list. -/
theorem afterCallOpening_append {blanks after : Text} (h : ∀ c ∈ blanks, isBlank c = true) :
    afterCallOpening (blanks ++ '(' :: after) = some after := by
  have hangle : afterTypeArguments (blanks ++ '(' :: after) = some (blanks ++ '(' :: after) := by
    cases blanks with
    | nil => rfl
    | cons c blanks =>
      refine if_neg ?_
      rintro rfl
      exact absurd (h '<' List.mem_cons_self) (by decide)
  rw [afterCallOpening, hangle, Option.bind_some, afterParen_append h]

/-- A word starts where no word goes on. -/
theorem isBoundary_iff {source : Text} {p : Nat} {c : Char} (hget : source[p]? = some c)
    (hc : isWord c = true) :
    isBoundary (source.take p).reverse.head? source[p]? = true ↔
      (p ≠ 0 → ∀ d, source[p - 1]? = some d → isWord d = false) := by
  obtain ⟨hlt, -⟩ := List.getElem?_eq_some_iff.mp hget
  rw [hget]
  cases p with
  | zero => simp [isBoundary, hc]
  | succ p =>
    have hp : p < source.length := Nat.lt_of_succ_lt hlt
    rw [head?_reverse_take hp, Nat.add_sub_cancel, List.getElem?_eq_getElem hp]
    simp [isBoundary, hc]

section Words

variable {names : MonitoredNames}
  (hwords : ∀ group, ∀ name ∈ names.groups.get group, ∀ c ∈ name, isWord c = true)

include hwords

/-- A callee starts with a word. -/
theorem IsCallee.exists_cons {name : Text} {kind : CalleeKind}
    (h : IsCallee names.groups name kind) : ∃ c rest, name = c :: rest ∧ isWord c = true := by
  have hne : ∀ {k name}, name ∈ names.groups.get k → name ≠ [] := fun hn =>
    (isCalleeChar_of_isMonitorable
      (NameGroups.isMonitorable_of_badName?_eq_none names.identifiers hn)).1
  have hfirst : ∀ {k name}, name ∈ names.groups.get k →
      ∃ c rest, name = c :: rest ∧ isWord c = true := fun {k name} hn => by
    obtain ⟨c, rest, rfl⟩ := List.exists_cons_of_ne_nil (hne hn)
    exact ⟨c, rest, rfl, hwords k _ hn c List.mem_cons_self⟩
  cases h with
  | hook h => exact hfirst (k := .hooks) h
  | wrapper h => exact hfirst (k := .wrappers) h
  | method hreceiver hmethod =>
    obtain ⟨c, rest, rfl, hc⟩ := hfirst (k := .receivers) hreceiver
    exact ⟨c, _, rfl, hc⟩

/-- Inside a callee a word starts after the point of a method only. -/
theorem IsCallee.drop_mem_methods {name : Text} {kind : CalleeKind}
    (h : IsCallee names.groups name kind) {i : Nat} {c : Char} (hget : name[i]? = some c)
    (hc : isWord c = false) : name.drop (i + 1) ∈ names.groups.methods := by
  have hnone : ∀ {k name}, name ∈ names.groups.get k → c ∉ name := fun hn hmem => by
    rw [hwords _ _ hn c hmem] at hc
    cases hc
  cases h with
  | hook h => exact absurd (List.mem_of_getElem? hget) (hnone (k := .hooks) h)
  | wrapper h => exact absurd (List.mem_of_getElem? hget) (hnone (k := .wrappers) h)
  | @method receiver method hreceiver hmethod =>
    rcases Nat.lt_trichotomy i receiver.length with hlt | rfl | hgt
    · rw [List.getElem?_append_left hlt] at hget
      exact absurd (List.mem_of_getElem? hget) (hnone (k := .receivers) hreceiver)
    · rw [← List.drop_drop, List.drop_left]
      exact hmethod
    · obtain ⟨j, rfl⟩ := Nat.exists_eq_add_of_lt hgt
      rw [List.getElem?_append_right (by omega), Nat.add_assoc, Nat.add_sub_cancel_left,
        List.getElem?_cons_succ] at hget
      exact absurd (List.mem_of_getElem? hget) (hnone (k := .methods) hmethod)

/-! ## Calls -/

variable {source : Text} (hangle : '<' ∉ source)

include hangle

omit hwords in
/-- Only blanks stand between a callee and its parenthesis. -/
theorem IsOpening.blank {p : Nat} {name opening after : Text} (h : IsOpening opening)
    (hdrop : source.drop p = name ++ (opening ++ '(' :: after)) :
    ∀ c ∈ opening, isBlank c = true := by
  rcases h with hblank | hhead
  · exact hblank
  · refine absurd (List.mem_of_mem_drop (i := p) ?_) hangle
    rw [hdrop]
    exact List.mem_append_right _ (List.mem_append_left _ (List.mem_of_head? hhead))

namespace MonitoredCall

variable {call : MonitoredCall}

omit hangle in
/-- A call starts with a word. -/
theorem Spelled.exists_isWord (h : call.Spelled names source) :
    ∃ c, source[call.start]? = some c ∧ isWord c = true := by
  obtain ⟨blanks, after, hdrop, -, -⟩ := h.text
  obtain ⟨c, rest, hname, hc⟩ := h.callee.exists_cons hwords
  exact ⟨c, by rw [← List.head?_drop, hdrop, hname]; rfl, hc⟩

/-- A text shows a call at an offset when one is spelled there. -/
theorem callAt_eq_some_iff :
    callAt names.callees source call.start = some call ↔ call.Spelled names source := by
  constructor
  · intro h
    have hboundary := isBoundary_of_callAt h
    obtain ⟨o, ho, rfl⟩ := exists_of_callAt h
    obtain ⟨-, hmem, -, opening, after, hdrop, hstop, hshape⟩ := occurrenceAt_eq_some ho
    have hcallee := mem_callees_iff.mp hmem
    have hopening := hshape.blank hangle hdrop
    obtain ⟨c, rest, hname, hc⟩ := hcallee.exists_cons hwords
    have hget : source[o.start]? = some c := by rw [← List.head?_drop, hdrop, hname]; rfl
    refine ⟨hcallee, ⟨opening, after, hdrop, hopening, ?_⟩, ?_,
      (isBoundary_iff hget hc).mp hboundary⟩
    · show o.stop - 1 = _
      omega
    · show o.stop = o.stop - 1 + 1
      omega
  · intro h
    obtain ⟨blanks, after, hdrop, hblanks, hparen⟩ := h.text
    obtain ⟨c, hget, hc⟩ := h.exists_isWord hwords
    have hstop : source.length - after.length = call.stop := by
      have hlen := congrArg List.length hdrop
      have := h.stop_eq
      simp only [List.length_drop, List.length_append, List.length_cons] at hlen
      omega
    rw [callAt_eq_ite, if_pos ((isBoundary_iff hget hc).mpr h.boundary),
      hdrop, h.callee.calleeAt_eq_some (afterCallOpening_append hblanks), Option.map_some,
      Option.map_some, sizeOfFound, hstop]

/-- No other occurrence reaches over a callee: inside it a word would start, but a word that starts
inside a callee is a method. -/
theorem Spelled.not_covered
    (hmethods : ∀ m ∈ names.groups.methods, m ∉ names.groups.hooks ∧ m ∉ names.groups.wrappers)
    (h : call.Spelled names source) : ¬ Covered (occurrences names source) call.start := by
  rintro ⟨o, ho, hlt, hcover⟩
  have hat := ((occurrences_spec names source).found_at o ho).2
  obtain ⟨-, hmem, -, opening, after', hdrop', hstop, hshape⟩ := occurrenceAt_eq_some hat
  have hcallee := mem_callees_iff.mp hmem
  have hopening := hshape.blank hangle hdrop'
  obtain ⟨blanks, after, hdrop, hblanks, -⟩ := h.text
  obtain ⟨c, hstart, hc⟩ := h.exists_isWord hwords
  obtain ⟨i, hi⟩ := Nat.exists_eq_add_of_lt hlt
  have hget : ∀ j, source[o.start + j]? = (o.name ++ (opening ++ '(' :: after'))[j]? := fun j => by
    rw [← List.getElem?_drop, hdrop']
  have hfirst : (o.name ++ (opening ++ '(' :: after'))[i + 1]? = some c := by
    rw [← hget, ← Nat.add_assoc, ← hi, hstart]
  have hin : i + 1 < o.name.length := lt_length_of_isWord hopening (by omega) hfirst hc
  have hprev : o.name[i]? = some o.name[i] := List.getElem?_eq_getElem (by omega)
  have hbefore : isWord o.name[i] = false := by
    refine h.boundary (by omega) _ ?_
    rw [hi, Nat.add_sub_cancel, hget, List.getElem?_append_left (by omega), hprev]
  have hmethod := hcallee.drop_mem_methods hwords hprev hbefore
  have hsame : call.name ++ (blanks ++ '(' :: after) =
      o.name.drop (i + 1) ++ (opening ++ '(' :: after') := by
    rw [← hdrop, hi, Nat.add_assoc, ← List.drop_drop, hdrop',
      List.drop_append_of_le_length (Nat.le_of_lt hin)]
  have heq := name_eq_of_opening (names.callees_chars (mem_callees_iff.mpr h.callee)).2
    (fun d hd => (names.callees_chars hmem).2 d (List.mem_of_mem_drop hd))
    (.inl hblanks) (.inl hopening) hsame
  exact h.callee.not_mem_methods hmethods (heq ▸ hmethod)

end MonitoredCall
end Words

/-- **The grammar of calls**: in a source text in which no angle bracket opens, and for names that are
words of which no method is a hook or wrapper, the search finds what reads as a call and nothing
else, one call after the other. -/
theorem MonitoredCall.findAll_grammar (source : Text) (names : MonitoredNames)
    (hangle : '<' ∉ source)
    (hwords : ∀ group, ∀ name ∈ names.groups.get group, ∀ c ∈ name, isWord c = true)
    (hmethods : ∀ m ∈ names.groups.methods, m ∉ names.groups.hooks ∧ m ∉ names.groups.wrappers) :
    ((findAll source names).Pairwise fun call call' =>
      call.start < call'.start ∧ call.stop ≤ call'.start) ∧
      ∀ call, call ∈ findAll source names ↔ call.Reads names source := by
  refine ⟨(stop_le_start source names).imp_of_mem ?_, fun call => ?_⟩
  · intro call call' h _ hle
    have := (text_at h).openParen_eq
    have := (text_at h).stop_eq
    exact ⟨by omega, hle⟩
  · rw [mem_findAll_iff, callAt_eq_some_iff hwords hangle]
    have hdeclared (h : call.Spelled names source) :
        endsInDeclaration (source.take call.start).reverse = false ↔
          ∀ k, ¬ DeclaredAt source k call.start := by
      obtain ⟨c, hget, -⟩ := h.exists_isWord hwords
      have hlt := (List.getElem?_eq_some_iff.mp hget).1
      rw [← Bool.not_eq_true, endsInDeclaration_take_iff (Nat.le_of_lt hlt), not_exists]
    constructor
    · rintro ⟨hspelled, -, hcode, hnone⟩
      exact ⟨hspelled, hcode, (hdeclared hspelled).mp hnone⟩
    · rintro ⟨hspelled, hcode, hnone⟩
      exact ⟨hspelled, hspelled.not_covered hwords hangle hmethods, hcode,
        (hdeclared hspelled).mpr hnone⟩

/-- A method is found as an argument of a call, with a blank before its parenthesis. -/
theorem MonitoredCall.logger_info_mem_findAll :
    ⟨"logger.info".toList, .method, 2, 15⟩ ∈ findAll "f(logger.info (x))".toList .standard := by
  have hwords : ∀ group, ∀ name ∈ MonitoredNames.standard.groups.get group,
      ∀ c ∈ name, isWord c = true := by
    intro group name hname
    rw [← List.all_eq_true]
    revert name
    cases group <;> decide +kernel
  have hcallee : IsCallee NameGroups.standard ("logger".toList ++ '.' :: "info".toList) .method :=
    .method (by decide +kernel) (by decide +kernel)
  have hgrammar := findAll_grammar "f(logger.info (x))".toList .standard (by decide +kernel) hwords
    (by decide +kernel)
  refine (hgrammar.2 _).mpr ⟨⟨hcallee, ⟨[' '], "x))".toList, ?_, ?_, ?_⟩, ?_, ?_⟩, ?_, ?_⟩
  · decide +kernel
  · intro c hc
    obtain rfl := List.mem_singleton.mp hc
    decide
  · decide +kernel
  · rfl
  · rintro - c hc
    obtain rfl : '(' = c := Option.some.inj hc
    decide +kernel
  · rw [classify_eq]
    decide +kernel
  · intro k hk
    have hlt : k + declarationKeyword.length < 2 := hk.lt
    have hlength : declarationKeyword.length = 8 := by decide
    omega

end SourceStamp
