import SourceStamp.Proofs.Text.Lines
import SourceStamp.Stack.Frame

/-!
# The lines of a trace

- `Frame.parseLines_eq_ok_iff`: a trace is read exactly when each of its lines is.
- `Frame.parseLines_join`: reading a trace that is joined from lines.
- `Frame.parse_strip`: blanks at the start of a line have no say in its frame.
-/

namespace SourceStamp
namespace Frame

open Text (InLine isBlank)

/-! ## Line by line -/

/-- Two readings one after the other succeed when both do. -/
theorem bind_eq_ok_iff {α β : Type} {x : Except UnreadableNumeral α}
    {f : α → Except UnreadableNumeral β} {b : β} :
    (x >>= f) = .ok b ↔ ∃ a, x = .ok a ∧ f a = .ok b := by
  cases x with
  | error => simp [bind, Except.bind]
  | ok a => simp [bind, Except.bind]

/-- A line with its frame, if it names one. -/
def named? (l : Text × Option Frame) : Option (Text × Frame) := l.2.map fun f => (l.1, f)

theorem mapM_parse_eq_ok_iff {ts : List Text} {out : List (Option (Text × Frame))} :
    (ts.mapM fun line => do return (← parse line).map fun f => (line, f)) = .ok out ↔
      ∃ ls : List (Text × Option Frame), ls.map (·.1) = ts ∧
        (∀ l ∈ ls, parse l.1 = .ok l.2) ∧ out = ls.map named? := by
  constructor
  · intro h
    induction ts generalizing out with
    | nil =>
      cases h
      exact ⟨[], rfl, by simp, rfl⟩
    | cons t ts ih =>
      rw [List.mapM_cons, bind_eq_ok_iff] at h
      obtain ⟨first, hfirst, h⟩ := h
      obtain ⟨rest, hrest, h⟩ := bind_eq_ok_iff.mp h
      obtain ⟨g, hg, hnamed⟩ := bind_eq_ok_iff.mp hfirst
      cases h
      cases hnamed
      obtain ⟨ls, hmap, hls, rfl⟩ := ih hrest
      exact ⟨(t, g) :: ls, by simp [hmap], List.forall_mem_cons.mpr ⟨hg, hls⟩, rfl⟩
  · rintro ⟨ls, rfl, hls, rfl⟩
    induction ls with
    | nil => rfl
    | cons l ls ih =>
      rw [List.forall_mem_cons] at hls
      rw [List.map_cons, List.mapM_cons, hls.1, ih hls.2]
      rfl

theorem parseLines_eq_ok_iff {t : Text} {out : List (Text × Frame)} :
    parseLines t = .ok out ↔
      ∃ ls : List (Text × Option Frame), ls.map (·.1) = Text.lines t ∧
        (∀ l ∈ ls, parse l.1 = .ok l.2) ∧ out = ls.filterMap named? := by
  rw [parseLines, bind_eq_ok_iff]
  constructor
  · rintro ⟨parsed, hparsed, h⟩
    obtain ⟨ls, hmap, hls, rfl⟩ := mapM_parse_eq_ok_iff.mp hparsed
    cases h
    exact ⟨ls, hmap, hls, by rw [List.filterMap_map, Function.id_comp]⟩
  · rintro ⟨ls, hmap, hls, rfl⟩
    refine ⟨_, mapM_parse_eq_ok_iff.mpr ⟨ls, hmap, hls, rfl⟩, ?_⟩
    rw [List.filterMap_map, Function.id_comp]
    rfl

/-- A trace of which every line is read is read. -/
theorem exists_parseLines {t : Text} (h : ∀ l ∈ Text.lines t, ∃ g, parse l = .ok g) :
    ∃ out, parseLines t = .ok out := by
  suffices hls : ∃ ls : List (Text × Option Frame), ls.map (·.1) = Text.lines t ∧
      ∀ l ∈ ls, parse l.1 = .ok l.2 by
    obtain ⟨ls, hmap, hls⟩ := hls
    exact ⟨_, parseLines_eq_ok_iff.mpr ⟨ls, hmap, hls, rfl⟩⟩
  generalize Text.lines t = ts at h
  induction ts with
  | nil => exact ⟨[], rfl, by simp⟩
  | cons t ts ih =>
    obtain ⟨⟨g, hg⟩, hts⟩ := List.forall_mem_cons.mp h
    obtain ⟨ls, hmap, hls⟩ := ih hts
    exact ⟨(t, g) :: ls, by simp [hmap], List.forall_mem_cons.mpr ⟨hg, hls⟩⟩

theorem parse_of_mem_parseLines {t : Text} {out : List (Text × Frame)}
    (h : parseLines t = .ok out) {l : Text × Frame} (hl : l ∈ out) :
    l.1 ∈ Text.lines t ∧ parse l.1 = .ok (some l.2) := by
  obtain ⟨ls, hmap, hls, rfl⟩ := parseLines_eq_ok_iff.mp h
  obtain ⟨⟨t', g⟩, hmem, hnamed⟩ := List.mem_filterMap.mp hl
  obtain ⟨f, hg, rfl⟩ := Option.map_eq_some_iff.mp hnamed
  refine ⟨?_, by rw [← hg]; exact hls _ hmem⟩
  rw [← hmap]
  exact List.mem_map_of_mem hmem

/-- The trace of lines that are not empty is read line by line. -/
theorem parseLines_join {ls : List (Text × Option Frame)}
    (hlines : ∀ l ∈ ls, InLine l.1 ∧ l.1 ≠ []) (hparse : ∀ l ∈ ls, parse l.1 = .ok l.2) :
    parseLines (Text.join ['\n'] (ls.map (·.1))) = .ok (ls.filterMap named?) := by
  refine parseLines_eq_ok_iff.mpr ⟨ls, (Text.lines_join ?_).symm, hparse, rfl⟩
  intro l hl
  obtain ⟨l, hmem, rfl⟩ := List.mem_map.mp hl
  exact hlines l hmem

/-! ## Blanks at the start -/

theorem keywordForm?_stripStart (l : Text) : keywordForm? (Text.stripStart l) = keywordForm? l := by
  rw [keywordForm?, keywordForm?, Text.stripStart, List.dropWhile_idempotent]

/-- A text without carriage returns and newlines. The other characters that end the lines of a trace
are like any other to the forms of a frame. -/
def IsLine (t : Text) : Prop := ∀ c ∈ t, c ≠ '\r' ∧ c ≠ '\n'

instance (t : Text) : Decidable (IsLine t) :=
  decidable_of_iff (t.all (fun c => c != '\r' && c != '\n') = true) (by simp [IsLine])

theorem isLine_cons {c : Char} {t : Text} :
    IsLine (c :: t) ↔ (c ≠ '\r' ∧ c ≠ '\n') ∧ IsLine t := List.forall_mem_cons

theorem isLine_append {s t : Text} : IsLine (s ++ t) ↔ IsLine s ∧ IsLine t :=
  List.forall_mem_append

theorem IsLine.notMem {t : Text} (h : IsLine t) : '\n' ∉ t := fun hmem => (h _ hmem).2 rfl

theorem isLine_of_inLine {t : Text} (h : InLine t) : IsLine t := by
  refine fun c hc => ⟨?_, ?_⟩ <;> (rintro rfl; exact h.notMem (by decide) hc)

theorem dropEndWhile_of_isLine {l : Text} (h : IsLine l) :
    Text.dropEndWhile (fun c => c == '\r' || c == '\n') l = l := by
  refine Text.dropEndWhile_eq_self_iff.mpr fun hne => ?_
  have hlast := h _ (List.getLast_mem hne)
  rw [Bool.or_eq_false_iff, beq_eq_false_iff_ne, beq_eq_false_iff_ne]
  exact hlast

/-- A line without blanks at its end names the same frame when it is stripped. -/
theorem parse_strip {l : Text} (hline : InLine l)
    (hend : Text.dropEndWhile isBlank l = l) : parse (Text.strip l) = parse l := by
  have hsuffix : Text.stripStart l <:+ l := List.dropWhile_suffix isBlank
  have hstrip : Text.strip l = Text.stripStart l := by
    refine Text.dropEndWhile_eq_self_iff.mpr fun hne => ?_
    rw [hsuffix.getLast hne]
    exact Text.dropEndWhile_eq_self_iff.mp hend _
  have hbare : Text.strip (Text.stripStart l) = Text.strip l := by
    rw [Text.strip, Text.stripStart_stripStart, ← Text.strip]
  have hinner : InLine (Text.stripStart l) := fun c hc => hline c (hsuffix.mem hc)
  rw [hstrip, parse, parse, dropEndWhile_of_isLine (isLine_of_inLine hinner),
    dropEndWhile_of_isLine (isLine_of_inLine hline), keywordForm?_stripStart, hbare]

end Frame
end SourceStamp
