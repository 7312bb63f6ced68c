import SourceStamp.Proofs.Call.Grammar

/-!
# Calls of whole identifiers

A monitored name is an identifier, in which a dollar sign counts as a letter. The search asks for a
word boundary before it, and for that a dollar sign is no letter. The two agree where a word starts
the name and no dollar sign precedes it.

- `MonitoredCall.StartsWhole`: no identifier goes on before the call.
- `MonitoredCall.startsWhole_iff`: when a call found starts whole.
- `MonitoredCall.findAll_name_iff`: when the plain call of a name is found.
- `MonitoredCall.findAll_whole`: both.
-/

namespace SourceStamp

open Text (isBlank isWord isBoundary)

/-- The characters of identifiers are those of words, and the dollar sign. -/
theorem isNameChar_eq_false_iff {c : Char} : isNameChar c = false ↔ isWord c = false ∧ c ≠ '$' := by
  rw [← beq_eq_false_iff_ne, ← Bool.or_eq_false_iff]
  exact Iff.rfl

/-- Between two neighbours of which only one is part of a word is a boundary. -/
theorem isBoundary_some {before : Option Char} {c : Char} :
    isBoundary before (some c) = true ↔ before.any isWord = !isWord c := by
  rw [isBoundary, Option.any_some, bne_iff_ne]
  exact Bool.eq_not.symm

namespace MonitoredCall

/-- No identifier of the source goes on before the call. -/
def StartsWhole (source : Text) (call : MonitoredCall) : Prop :=
  call.start ≠ 0 → ∀ c, source[call.start - 1]? = some c → isNameChar c = false

variable {source : Text} {names : MonitoredNames} {call : MonitoredCall}

/-- A call starts whole when its name starts with a word and no dollar sign precedes it. -/
theorem startsWhole_iff (h : call ∈ findAll source names) :
    call.StartsWhole source ↔ (call.start ≠ 0 →
      call.name.head?.any isWord = true ∧ source[call.start - 1]? ≠ some '$') := by
  have hboundary := isBoundary_of_callAt (mem_findAll_iff.mp h).1
  obtain ⟨after, hdrop⟩ := (text_at h).drop_start
  obtain ⟨c, rest, hname⟩ := List.exists_cons_of_ne_nil (text_at h).name_chars.1
  have hget : source[call.start]? = some c := by rw [← List.head?_drop, hdrop, hname]; rfl
  -- at the start of the text both sides hold; elsewhere the boundary has two neighbours
  refine imp_congr_right fun hstart => ?_
  obtain ⟨p, hp⟩ := Nat.exists_eq_succ_of_ne_zero hstart
  have hlt : p < source.length := by
    have := (List.getElem?_eq_some_iff.mp hget).1
    omega
  rw [hget, isBoundary_some, hp, head?_reverse_take hlt, List.getElem?_eq_getElem hlt,
    Option.any_some] at hboundary
  rw [hp, Nat.succ_sub_one, List.getElem?_eq_getElem hlt, hname, List.head?_cons, Option.any_some]
  simp only [Option.some.injEq, forall_eq', ne_eq, isNameChar_eq_false_iff, hboundary,
    Bool.not_eq_false']

section Plain

variable {name : Text}

/-- In a name and a pair of parentheses there is one place for a call to open. -/
theorem openParen_eq_of_mem (hname : ∀ c ∈ name, isCalleeChar c = true)
    (h : call ∈ findAll (name ++ "()".toList) names) : call.openParen = name.length := by
  have hparen := (text_at h).getElem_openParen
  have hlt := (text_at h).openParen_lt
  rw [List.length_append] at hlt
  change call.openParen < name.length + 2 at hlt
  rcases Nat.lt_or_ge call.openParen name.length with hin | hge
  · -- a callee holds no parenthesis
    rw [List.getElem?_append_left hin] at hparen
    exact absurd (hname _ (List.mem_of_getElem? hparen)) (by decide)
  · rw [List.getElem?_append_right hge] at hparen
    obtain heq | hlast : call.openParen = name.length ∨ call.openParen - name.length = 1 := by omega
    · exact heq
    · rw [hlast] at hparen
      exact absurd hparen (by decide)

/-- A name and a pair of parentheses show a call of the name where a word starts it. -/
theorem mem_findAll_name_iff {kind : CalleeKind} (h : IsCallee names.groups name kind) :
    ⟨name, kind, 0, name.length + 1⟩ ∈ findAll (name ++ "()".toList) names ↔
      name.head?.any isWord = true := by
  obtain ⟨hne, -⟩ := names.callees_chars (mem_callees_iff.mpr h)
  obtain ⟨c, rest, hname⟩ := List.exists_cons_of_ne_nil hne
  have hboundary :
      isBoundary ((name ++ "()".toList).take 0).reverse.head? (name ++ "()".toList)[0]? =
        name.head?.any isWord := by
    rw [hname]
    exact Bool.false_bne _
  constructor
  · intro hmem
    exact hboundary ▸ isBoundary_of_callAt (mem_findAll_iff.mp hmem).1
  · intro hword
    rw [mem_findAll_iff]
    refine ⟨?_, ?_, ?_, rfl⟩
    · have hfound : calleeAt names.callees (name ++ "()".toList) = some (name, kind, [')']) :=
        h.calleeAt_eq_some rfl
      have hstop : (name ++ "()".toList).length - 1 = name.length + 1 := by
        rw [List.length_append]
        rfl
      rw [callAt_eq_ite, if_pos (hboundary.trans hword), List.drop_zero, hfound, Option.map_some,
        Option.map_some, sizeOfFound, ← hstop]
      rfl
    · rintro ⟨o, -, hlt, -⟩
      exact Nat.not_lt_zero _ hlt
    · rw [classify_eq]
      rfl

/-- The plain call of a name is found, and nothing else, exactly when a word starts the name. -/
theorem findAll_name_iff {kind : CalleeKind} (h : IsCallee names.groups name kind) :
    findAll (name ++ "()".toList) names = [⟨name, kind, 0, name.length + 1⟩] ↔
      name.head?.any isWord = true := by
  obtain ⟨-, hchars⟩ := names.callees_chars (mem_callees_iff.mpr h)
  rw [← mem_findAll_name_iff h]
  constructor
  · intro hall
    rw [hall]
    exact List.mem_singleton_self _
  · intro hmem
    refine calls_eq_of_mem_iff (findAll_pairwise _ _) (List.pairwise_singleton _ _) fun call => ?_
    rw [List.mem_singleton]
    constructor
    · intro hcall
      exact eq_of_openParen_eq hcall hmem (openParen_eq_of_mem hchars hcall)
    · rintro rfl
      exact hmem

end Plain

/-- **Whole identifiers**, as far as a word boundary tells them:

- no identifier goes on before a call that is found, unless a dollar sign precedes its name or
  something that is no part of a word, such as a dollar sign, starts the name;
- the plain call of a name is found, at its offset and as the only one, exactly when a word starts
  the name. -/
theorem findAll_whole (names : MonitoredNames) :
    (∀ source, ∀ call ∈ findAll source names, call.StartsWhole source ↔
      (call.start ≠ 0 → call.name.head?.any isWord = true ∧ source[call.start - 1]? ≠ some '$')) ∧
    ∀ name kind, IsCallee names.groups name kind →
      (findAll (name ++ "()".toList) names = [⟨name, kind, 0, name.length + 1⟩] ↔
        name.head?.any isWord = true) :=
  ⟨fun _ _ h => startsWhole_iff h, fun _ _ h => findAll_name_iff h⟩

/-- Names of which one is monitored, a hook that starts with a dollar sign. -/
def dollarHook : MonitoredNames := ⟨⟨["$use".toList], [], [], []⟩, by decide +kernel, by decide⟩

/-- In the call of a hook that starts with a dollar sign the rest of its name is found, if it is
monitored, but the hook is not. -/
theorem findAll_whole_dollar :
    (⟨"use".toList, .hook, 1, 5⟩ ∈ findAll "$use()".toList .soleHook ∧
      ¬ StartsWhole "$use()".toList ⟨"use".toList, .hook, 1, 5⟩) ∧
      findAll ("$use".toList ++ "()".toList) dollarHook ≠ [⟨"$use".toList, .hook, 0, 5⟩] := by
  refine ⟨?_, ?_⟩
  · have hmem : ⟨"use".toList, .hook, 1, 5⟩ ∈ findAll "$use()".toList .soleHook := by
      simp only [findAll_eq, Occurrence.isCall, classify_eq]
      decide +kernel
    refine ⟨hmem, ?_⟩
    intro hstarts
    exact (((findAll_whole .soleHook).1 _ _ hmem).mp hstarts (by decide)).2 (by decide)
  · intro hall
    have hcallee : IsCallee dollarHook.groups "$use".toList .hook := .hook (by decide)
    exact absurd (((findAll_whole dollarHook).2 _ _ hcallee).mp hall) (by decide +kernel)

end MonitoredCall
end SourceStamp
