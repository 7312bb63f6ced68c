import SourceStamp.Proofs.Call.Place
import SourceStamp.Proofs.Lexis.Regions

/-!
# Calls and regions

In a text that is built from code and regions, no call starts inside a region.

- `Piece.exists_states_eq`: a region is code at most before its first character, which is part of no
  name.
- `Piece.scan_source`: what a scan of such a text reports, and where its calls stand.
-/

namespace SourceStamp

namespace Reading

@[simp] theorem length_states (following : Option Char) (r : Reading) (t : Text) :
    (r.states following t).length = t.length := by
  induction t generalizing r with
  | nil => rfl
  | cons c t ih => rw [states_cons, List.length_cons, ih, List.length_cons]

end Reading

/-- The states of a text show its readings. -/
theorem getElem?_states_of_inCode {t : Text} {p : Nat} (hp : p < t.length)
    (h : (readingAt t p).InCode) : (Reading.start.states none t)[p]? = some (some .code) := by
  have hsplit := Reading.states_append none Reading.start (t.take p) (t.drop p)
  have hlen : (Reading.start.states t[p]? (t.take p)).length = p := by
    rw [Reading.length_states, List.length_take, Nat.min_eq_left (Nat.le_of_lt hp)]
  rw [List.take_append_drop, Option.or_none, List.head?_drop] at hsplit
  rw [hsplit, List.getElem?_append_right (Nat.le_of_eq hlen), hlen, Nat.sub_self,
    List.drop_eq_getElem_cons hp, Reading.states_cons]
  show some (if (readingAt t p).halfway = true then none else some (readingAt t p).state) = _
  rw [h.halfway_eq, h.state_eq]
  rfl

/-- A call starts with the first character of its name. -/
theorem MonitoredCall.TextAt.exists_first {source : Text} {call : MonitoredCall}
    (h : call.TextAt source) : ∃ c, source[call.start]? = some c ∧ isCalleeChar c = true := by
  obtain ⟨after, hdrop⟩ := h.drop_start
  obtain ⟨c, name, hname⟩ := List.exists_cons_of_ne_nil h.name_chars.1
  refine ⟨c, ?_, h.name_chars.2 c (hname ▸ List.mem_cons_self)⟩
  rw [← List.head?_drop, hdrop, hname]
  rfl

namespace Piece

theorem length_states (piece : Piece) : piece.states.length = piece.text.length := by
  rw [← (piece.states_text Reading.start_inCode none).1, Reading.length_states]

theorem length_flatMap_states (pieces : List Piece) :
    (pieces.flatMap states).length = (source pieces).length := by
  rw [← (states_source pieces Reading.start_inCode none).1, Reading.length_states]

theorem code_not_mem_stretch {s : LexicalState} (h : s ≠ .code) (n : Nat) :
    some .code ∉ stretch s n := by
  intro hm
  exact h (Option.some.inj (List.eq_of_mem_replicate hm)).symm

theorem code_not_mem_interpolatedStates (rest : List (Interpolation × TemplateText)) :
    some .code ∉ interpolatedStates rest := by
  intro hm
  obtain ⟨⟨e, t⟩, -, hm⟩ := List.mem_flatMap.mp hm
  simp only [List.mem_cons, List.mem_append, Option.some.injEq, reduceCtorEq, false_or] at hm
  exact hm.elim (code_not_mem_stretch (by simp) _) (code_not_mem_stretch (by simp) _)

/-- A region is code before its first character only, and that character opens it. -/
theorem exists_states_eq {region : Piece} (h : region.isRegion = true) :
    ∃ c t inside, region.text = c :: t ∧ region.states = some .code :: inside ∧
      isCalleeChar c = false ∧ some .code ∉ inside := by
  cases region with
  | code c => cases h
  | string s =>
    refine ⟨_, _, _, rfl, rfl, ?_, code_not_mem_stretch (by simp) _⟩
    rcases s.isQuote with h | h <;> rw [h] <;> decide +kernel
  | template first rest =>
    refine ⟨_, _, _, rfl, rfl, by decide +kernel, ?_⟩
    simp only [List.mem_append, not_or]
    exact ⟨⟨code_not_mem_stretch (by simp) _, code_not_mem_interpolatedStates rest⟩,
      code_not_mem_stretch (by simp) _⟩
  | lineComment c =>
    refine ⟨_, _, _, rfl, rfl, by decide +kernel, ?_⟩
    simp only [List.mem_cons, reduceCtorEq, false_or]
    exact code_not_mem_stretch (by simp) _
  | blockComment c =>
    refine ⟨_, _, _, rfl, rfl, by decide +kernel, ?_⟩
    simp only [List.mem_cons, List.mem_append, reduceCtorEq, false_or, or_false,
      List.not_mem_nil]
    exact code_not_mem_stretch (by simp) _

/-- No name starts inside a region where the text is code. -/
theorem not_code_inside {region : Piece} (h : region.isRegion = true) {k : Nat} {c : Char}
    (hget : region.text[k]? = some c) (hc : isCalleeChar c = true) :
    region.states[k]? ≠ some (some .code) := by
  obtain ⟨d, t, inside, htext, hstates, hd, hinside⟩ := exists_states_eq h
  intro hcode
  rw [hstates] at hcode
  cases k with
  | zero =>
    rw [htext] at hget
    cases hget
    rw [hc] at hd
    cases hd
  | succ k => exact hinside (List.mem_of_getElem? hcode)

/-- The characters of a piece, with their states, among those of the whole text. -/
theorem getElem?_source (before after : List Piece) (piece : Piece) {k : Nat}
    (hk : k < piece.text.length) :
    (source (before ++ piece :: after))[(source before).length + k]? = piece.text[k]? ∧
      ((before ++ piece :: after).flatMap states)[(source before).length + k]? =
        piece.states[k]? := by
  have hk' : k < piece.states.length := by rw [length_states]; exact hk
  constructor
  · rw [source_append, source_cons, List.getElem?_append_right (Nat.le_add_right _ _),
      Nat.add_sub_cancel_left, List.getElem?_append_left hk]
  · rw [List.flatMap_append, List.flatMap_cons, ← length_flatMap_states,
      List.getElem?_append_right (Nat.le_add_right _ _), Nat.add_sub_cancel_left,
      List.getElem?_append_left hk']

/-- **Texts built from code and regions**, whatever the pieces and the monitored names.

- A scan reports the code state before every character of code, and inside a region the state of
  that region, from the character after its opener up to the first character of its closer: the
  second character of a delimiter is not visited.
- No call starts inside a region. -/
theorem scan_source (pieces : List Piece) (names : MonitoredNames) :
    (Scanner.start (source pieces)).visits.map (fun v => (v.position, v.state)) =
        reported 0 (pieces.flatMap states) ∧
      ∀ before region after, pieces = before ++ region :: after → region.isRegion = true →
        ∀ call ∈ MonitoredCall.findAll (source pieces) names,
          call.start < (source before).length ∨
            (source before).length + region.text.length ≤ call.start := by
  refine ⟨visits_source pieces, ?_⟩
  rintro before region after rfl hregion call hcall
  rcases Nat.lt_or_ge call.start (source before).length with hlt | hge
  · exact .inl hlt
  refine .inr (Nat.le_of_not_lt ?_)
  intro hlt
  obtain ⟨k, hk⟩ := Nat.exists_eq_add_of_le hge
  obtain ⟨hchar, hstate⟩ := getElem?_source before after region (k := k) (by omega)
  obtain ⟨c, hc, hname⟩ := (MonitoredCall.text_at hcall).exists_first
  have hlen : call.start < (source (before ++ region :: after)).length :=
    (List.getElem?_eq_some_iff.mp hc).1
  have hcode := getElem?_states_of_inCode hlen (MonitoredCall.start_inCode hcall)
  rw [(states_source _ Reading.start_inCode none).1, hk, hstate] at hcode
  rw [hk, hchar] at hc
  exact not_code_inside hregion hc hname hcode

end Piece
end SourceStamp
