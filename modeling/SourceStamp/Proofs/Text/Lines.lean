import Mathlib.Data.List.DropRight
import SourceStamp.Text.Blank

/-!
# Lines

- `Text.InLine`: a text without the characters that end lines.
- `Text.inLine_of_mem_lines`, `Text.lines_join`: splitting a text gives such texts, and joining
  those that are not empty is undone by splitting.
- `Text.universalNewlines_eq_self`, `Text.return_not_mem_universalNewlines`: line ends in universal
  form.
- `Text.strip_eq_self_iff`: a text is stripped already exactly when neither end is a blank.
-/

namespace SourceStamp.Text

/-! ## Splitting and joining -/

/-- No character of the text ends a line. -/
def InLine (t : Text) : Prop := ∀ c ∈ t, isLineBreak c = false

instance (t : Text) : Decidable (InLine t) :=
  decidable_of_iff (t.all (fun c => !isLineBreak c) = true) (by simp [InLine])

theorem inLine_nil : InLine [] := fun _ hc => absurd hc List.not_mem_nil

theorem inLine_cons {c : Char} {t : Text} :
    InLine (c :: t) ↔ isLineBreak c = false ∧ InLine t := List.forall_mem_cons

theorem inLine_append {s t : Text} : InLine (s ++ t) ↔ InLine s ∧ InLine t :=
  List.forall_mem_append

theorem InLine.notMem {t : Text} (h : InLine t) {c : Char} (hc : isLineBreak c = true) :
    c ∉ t := by
  intro hmem
  rw [h c hmem] at hc
  cases hc

/-- A character that ends no line is the first one of the first line. -/
theorem lines_cons_of_not_isLineBreak {c : Char} (hc : isLineBreak c = false) (t : Text) :
    lines (c :: t) = match lines t with
      | [] => [[c]]
      | line :: rest => (c :: line) :: rest := by
  rw [lines]
  · rw [hc]
    rfl
  · rintro r rfl -
    cases hc

theorem lines_newline (t : Text) : lines ('\n' :: t) = [] :: lines t := by
  rw [lines]
  · rfl
  · intro r hc
    cases hc

theorem inLine_of_mem_lines {t : Text} : ∀ l ∈ lines t, InLine l := by
  fun_induction lines t with
  | case1 => exact fun l hl => absurd hl List.not_mem_nil
  | case2 r ih => exact List.forall_mem_cons.mpr ⟨inLine_nil, ih⟩
  | case3 c r _ hc ih => exact List.forall_mem_cons.mpr ⟨inLine_nil, ih⟩
  | case4 c r _ hc hlines ih =>
    rintro l hl
    rw [List.mem_singleton.mp hl]
    exact inLine_cons.mpr ⟨Bool.eq_false_iff.mpr hc, inLine_nil⟩
  | case5 c r _ hc line rest hlines ih =>
    rw [hlines, List.forall_mem_cons] at ih
    exact List.forall_mem_cons.mpr ⟨inLine_cons.mpr ⟨Bool.eq_false_iff.mpr hc, ih.1⟩, ih.2⟩

theorem lines_append_newline {l : Text} (h : InLine l) (t : Text) :
    lines (l ++ '\n' :: t) = l :: lines t := by
  induction l with
  | nil => exact lines_newline t
  | cons c l ih =>
    rw [inLine_cons] at h
    rw [List.cons_append, lines_cons_of_not_isLineBreak h.1, ih h.2]

theorem lines_of_inLine {l : Text} (h : InLine l) (hne : l ≠ []) : lines l = [l] := by
  induction l with
  | nil => exact absurd rfl hne
  | cons c l ih =>
    rw [inLine_cons] at h
    rw [lines_cons_of_not_isLineBreak h.1]
    cases l with
    | nil => rfl
    | cons d l => rw [ih h.2 (List.cons_ne_nil d l)]

/-- Splitting undoes the joining of lines that are not empty. -/
theorem lines_join {ls : List Text} (h : ∀ l ∈ ls, InLine l ∧ l ≠ []) :
    lines (join ['\n'] ls) = ls := by
  induction ls with
  | nil => rfl
  | cons l ls ih =>
    obtain ⟨⟨hl, hne⟩, hls⟩ := List.forall_mem_cons.mp h
    cases ls with
    | nil => exact lines_of_inLine hl hne
    | cons m ls =>
      show lines (l ++ ['\n'] ++ join ['\n'] (m :: ls)) = _
      rw [List.append_assoc, List.singleton_append, lines_append_newline hl, ih hls]

/-! ## Line ends in universal form -/

/-- Line ends in universal form stay as they are. -/
theorem universalNewlines_eq_self {t : Text} (h : '\r' ∉ t) : universalNewlines t = t := by
  fun_induction universalNewlines t with
  | case1 => rfl
  | case2 => exact absurd List.mem_cons_self h
  | case3 c t _ ih =>
    rw [List.mem_cons, not_or] at h
    rw [if_neg (Ne.symm h.1), ih h.2]

/-- No carriage return is left in universal form. -/
theorem return_not_mem_universalNewlines (t : Text) : '\r' ∉ universalNewlines t := by
  fun_induction universalNewlines t with
  | case1 => exact List.not_mem_nil
  | case2 t ih =>
    rw [List.mem_cons, not_or]
    exact ⟨by decide, ih⟩
  | case3 c t _ ih =>
    rw [List.mem_cons, not_or]
    refine ⟨?_, ih⟩
    split
    · decide
    · next hne => exact fun h => hne h.symm

/-! ## Stripping -/

theorem dropEndWhile_eq_self_iff {p : Char → Bool} {t : Text} :
    dropEndWhile p t = t ↔ ∀ h : t ≠ [], p (t.getLast h) = false := by
  show List.rdropWhile p t = t ↔ _
  simp only [List.rdropWhile_eq_self_iff, Bool.not_eq_true]

theorem stripStart_eq_self_iff {t : Text} : stripStart t = t ↔ t.head?.any isBlank = false := by
  cases t with
  | nil => exact ⟨fun _ => rfl, fun _ => rfl⟩
  | cons c r =>
    show stripStart (c :: r) = c :: r ↔ isBlank c = false
    by_cases hc : isBlank c = true
    · rw [stripStart, List.dropWhile_cons_of_pos hc, hc]
      refine iff_of_false (fun h => ?_) (by decide)
      have := (List.dropWhile_suffix isBlank (l := r)).length_le
      rw [h, List.length_cons] at this
      omega
    · rw [stripStart, List.dropWhile_cons_of_neg hc]
      exact iff_of_true rfl (Bool.eq_false_iff.mpr hc)

theorem strip_eq_self_iff {t : Text} :
    strip t = t ↔ stripStart t = t ∧ dropEndWhile isBlank t = t := by
  constructor
  · intro h
    -- neither end can have lost a character
    have hend := (List.rdropWhile_prefix isBlank (stripStart t)).length_le
    have hstart := List.dropWhile_suffix isBlank (l := t)
    have hlength : (stripStart t).length = t.length := by
      refine le_antisymm hstart.length_le ?_
      calc t.length = (strip t).length := by rw [h]
        _ ≤ (stripStart t).length := hend
    have hself : stripStart t = t := hstart.eq_of_length hlength
    exact ⟨hself, by rwa [strip, hself] at h⟩
  · rintro ⟨hstart, hend⟩
    rw [strip, hstart, hend]

theorem mem_of_mem_strip {t : Text} {c : Char} (h : c ∈ strip t) : c ∈ t :=
  (List.dropWhile_suffix isBlank).mem ((List.rdropWhile_prefix isBlank (stripStart t)).mem h)

theorem stripStart_stripStart (t : Text) : stripStart (stripStart t) = stripStart t :=
  List.dropWhile_idempotent isBlank t

theorem strip_strip (t : Text) : strip (strip t) = strip t := by
  refine strip_eq_self_iff.mpr ⟨?_, List.rdropWhile_idempotent isBlank (stripStart t)⟩
  have hhead := stripStart_eq_self_iff.mp (stripStart_stripStart t)
  have hprefix : strip t <+: stripStart t := List.rdropWhile_prefix isBlank _
  rw [stripStart_eq_self_iff]
  cases hstrip : strip t with
  | nil => rfl
  | cons c r =>
    obtain ⟨s, hs⟩ := hprefix
    rw [hstrip] at hs
    rwa [← hs] at hhead

end SourceStamp.Text
