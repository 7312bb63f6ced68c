import SourceStamp.Edit

/-!
# What a pass makes of a list of edits

A pass over a source text takes the edits in order of position and drops those that come too late.

- `Edit.kept`, `Edit.lost`: the edits that a pass applies and drops from some offset on, and
  `Edit.weave`: the text that it produces from there. `Edit.applyAll_eq` says that these are the
  three parts of the outcome.
- `Edit.InOrder`: edits of which each starts after the one before; the applied ones always are.
- `Edit.Clear`: two edits that do not meet; among such edits none is dropped
  (`Edit.dropped_eq_nil_of_clear`).
-/

namespace SourceStamp
namespace Edit

/-- The edits that a pass applies from an offset on. -/
def kept (source : Text) (cursor : Int) : List Edit → List Edit
  | [] => []
  | e :: es =>
    if e.position < cursor ∨ (source.length : Int) < e.stop then kept source cursor es
    else e :: kept source e.stop es

/-- The edits that a pass drops from an offset on. -/
def lost (source : Text) (cursor : Int) : List Edit → List Edit
  | [] => []
  | e :: es =>
    if e.position < cursor ∨ (source.length : Int) < e.stop then e :: lost source cursor es
    else lost source e.stop es

/-- The text from an offset on, with the edits applied. -/
def weave (source : Text) (cursor : Int) : List Edit → Text
  | [] => slice source cursor source.length
  | e :: es => slice source cursor e.position ++ (e.insertText ++ weave source e.stop es)

/-- One edit after the other, all within the text from an offset on. -/
def InOrder (source : Text) (cursor : Int) : List Edit → Prop
  | [] => True
  | e :: es => cursor ≤ e.position ∧ e.stop ≤ source.length ∧ InOrder source e.stop es

theorem kept_sublist (source : Text) (cursor : Int) (es : List Edit) :
    (kept source cursor es).Sublist es := by
  induction es generalizing cursor with
  | nil => exact .slnil
  | cons e es ih =>
    unfold kept
    split
    · exact (ih cursor).cons e
    · exact (ih e.stop).cons_cons e

theorem kept_inOrder (source : Text) (cursor : Int) (es : List Edit) :
    InOrder source cursor (kept source cursor es) := by
  induction es generalizing cursor with
  | nil => trivial
  | cons e es ih =>
    unfold kept
    split
    · exact ih cursor
    · next h =>
      rw [not_or] at h
      exact ⟨Int.not_lt.mp h.1, Int.not_lt.mp h.2, ih e.stop⟩

/-- Nothing is lost exactly from edits in order. -/
theorem lost_eq_nil_iff {source : Text} {cursor : Int} {es : List Edit} :
    lost source cursor es = [] ↔ InOrder source cursor es := by
  induction es generalizing cursor with
  | nil => exact ⟨fun _ => trivial, fun _ => rfl⟩
  | cons e es ih =>
    unfold lost InOrder
    split
    · next h => exact ⟨fun h => (nomatch h), fun ⟨h1, h2, _⟩ => by omega⟩
    · next h =>
      rw [ih]
      exact ⟨fun h' => ⟨by omega, by omega, h'⟩, fun h' => h'.2.2⟩

/-- Edits in order are all kept. -/
theorem kept_of_inOrder {source : Text} {cursor : Int} {es : List Edit}
    (h : InOrder source cursor es) : kept source cursor es = es := by
  induction es generalizing cursor with
  | nil => rfl
  | cons e es ih =>
    obtain ⟨h1, h2, h3⟩ := h
    rw [kept, if_neg (by omega), ih h3]

/-! ## The pass -/

/-- What the rest of a pass adds to what it has done. -/
theorem foldl_add (source : Text) (es : List Edit) (p : Pass) :
    (es.foldl (Pass.add source) p).finish source =
        p.output.build ++ weave source p.cursor (kept source p.cursor es) ∧
      (es.foldl (Pass.add source) p).applied = (kept source p.cursor es).reverse ++ p.applied ∧
      (es.foldl (Pass.add source) p).dropped = (lost source p.cursor es).reverse ++ p.dropped := by
  induction es generalizing p with
  | nil => exact ⟨by simp [Pass.finish, kept, weave], rfl, rfl⟩
  | cons e es ih =>
    rw [List.foldl_cons]
    obtain ⟨htext, happlied, hdropped⟩ := ih (p.add source e)
    rw [htext, happlied, hdropped, kept, lost]
    by_cases hlost : e.position < p.cursor ∨ (source.length : Int) < e.stop
    · rw [if_pos hlost, if_pos hlost, Pass.add, if_pos hlost]
      exact ⟨rfl, rfl, by simp⟩
    · rw [if_neg hlost, if_neg hlost, Pass.add, if_neg hlost]
      exact ⟨by simp [weave], by simp, rfl⟩

/-- **The outcome of a pass**: its text is woven from the edits that it keeps. -/
theorem applyAll_eq (source : Text) (edits : List Edit) :
    applyAll source edits =
      ⟨weave source 0 (kept source 0 (ordered edits)), kept source 0 (ordered edits),
        lost source 0 (ordered edits)⟩ := by
  obtain ⟨htext, happlied, hdropped⟩ := foldl_add source (ordered edits) Pass.start
  simp only [applyAll, htext, happlied, hdropped]
  simp [Pass.start]

/-! ## What a pass copies -/

theorem slice_eq {t : Text} {a b : Nat} (hab : a ≤ b) (hb : b ≤ t.length) :
    slice t a b = (t.drop a).take (b - a) := by
  have hindex : ∀ {k : Nat}, k ≤ t.length → index t.length k = k := fun hk => by
    rw [index, if_neg (by omega), Int.toNat_natCast, Nat.min_eq_left hk]
  rw [slice, hindex hb, hindex (Nat.le_trans hab hb)]

section Copies

variable {source : Text} {cursor : Nat}

theorem weave_nil (hcursor : cursor ≤ source.length) :
    weave source cursor [] = (source.drop cursor).take (source.length - cursor) ++ [] := by
  rw [weave, slice_eq hcursor (Nat.le_refl _), List.append_nil]

/-- Without edits the rest of the text stays as it is. -/
theorem weave_nil_eq_drop (hcursor : cursor ≤ source.length) :
    weave source cursor [] = source.drop cursor := by
  rw [weave_nil hcursor, List.append_nil, List.take_of_length_le (Nat.le_of_eq List.length_drop)]

/-- Without edits the text stays as it is. -/
theorem weave_nil_eq (source : Text) : weave source 0 [] = source :=
  weave_nil_eq_drop (Nat.zero_le _)

@[simp] theorem applyAll_nil (source : Text) : applyAll source [] = ⟨source, [], []⟩ := by
  have hnone : ordered [] = [] := List.mergeSort_nil
  rw [applyAll_eq, hnone, kept, lost, weave_nil_eq]

/-- Up to its first edit a pass copies the source text. -/
theorem weave_cons {e : Edit} {a b : Nat} (ha : e.position = a) (hb : e.stop = b)
    (hcursor : cursor ≤ a) (hlen : a ≤ source.length) (es : List Edit) :
    weave source cursor (e :: es) =
      (source.drop cursor).take (a - cursor) ++ (e.insertText ++ weave source b es) := by
  rw [weave, ha, hb, slice_eq hcursor hlen]

end Copies

/-! ## The order of edits -/

theorem ordered_perm (edits : List Edit) : (ordered edits).Perm edits :=
  List.mergeSort_perm edits _

theorem ordered_pairwise (edits : List Edit) :
    (ordered edits).Pairwise fun e e' => e.position ≤ e'.position := by
  have hsorted := @List.pairwise_mergeSort _
    (fun a b : Edit => decide (a.position ≤ b.position))
    (fun a b c hab hbc => by simp only [decide_eq_true_eq] at *; omega)
    (fun a b => by simp only [Bool.or_eq_true, decide_eq_true_eq]; omega) edits
  exact hsorted.imp fun h => of_decide_eq_true h

/-- The edit speaks of a stretch of the text. -/
structure Fits (source : Text) (e : Edit) : Prop where
  position_nonneg : 0 ≤ e.position
  position_le : e.position ≤ e.stop
  stop_le : e.stop ≤ source.length

/-- For edits that fit, order is a matter of any two of them. -/
theorem inOrder_iff {source : Text} {cursor : Int} {es : List Edit}
    (hfits : ∀ e ∈ es, Fits source e) :
    InOrder source cursor es ↔
      (∀ e ∈ es, cursor ≤ e.position) ∧ es.Pairwise fun e e' => e.stop ≤ e'.position := by
  induction es generalizing cursor with
  | nil => simp [InOrder]
  | cons e es ih =>
    have he := hfits e List.mem_cons_self
    rw [InOrder, ih fun e' he' => hfits e' (List.mem_cons_of_mem e he'), List.pairwise_cons,
      List.forall_mem_cons]
    constructor
    · rintro ⟨h1, -, h3, h4⟩
      refine ⟨⟨h1, ?_⟩, h3, h4⟩
      intro e' he'
      have := h3 e' he'
      have := he.position_le
      omega
    · rintro ⟨⟨h1, -⟩, h3, h4⟩
      exact ⟨h1, he.stop_le, h3, h4⟩

/-- Of edits that fit, none is dropped exactly when each ends before the next one starts. -/
theorem applyAll_dropped_eq_nil_iff {source : Text} {edits : List Edit}
    (hfits : ∀ e ∈ edits, Fits source e) :
    (applyAll source edits).dropped = [] ↔
      (ordered edits).Pairwise fun e e' => e.stop ≤ e'.position := by
  have hfits' : ∀ e ∈ ordered edits, Fits source e := fun e he =>
    hfits e ((ordered_perm edits).mem_iff.mp he)
  rw [applyAll_eq, lost_eq_nil_iff, inOrder_iff hfits']
  exact ⟨fun h => h.2, fun h => ⟨fun e he => (hfits' e he).position_nonneg, h⟩⟩

/-- Whichever of two edits comes first, it ends before the other starts. -/
def Clear (e e' : Edit) : Prop :=
  (e.position ≤ e'.position → e.stop ≤ e'.position) ∧
    (e'.position ≤ e.position → e'.stop ≤ e.position)

theorem Clear.symm {e e' : Edit} (h : e.Clear e') : e'.Clear e := ⟨h.2, h.1⟩

/-- Edits clear of each other are all applied. -/
theorem dropped_eq_nil_of_clear {source : Text} {edits : List Edit}
    (hfits : ∀ e ∈ edits, Fits source e) (hclear : edits.Pairwise Clear) :
    (applyAll source edits).dropped = [] := by
  rw [applyAll_dropped_eq_nil_iff hfits]
  have hordered := (ordered_perm edits).symm.pairwise_iff Clear.symm |>.mp hclear
  exact (hordered.and (ordered_pairwise edits)).imp fun h => h.1.1 h.2

/-- Of two edits that replace text at the same place, one is dropped. -/
theorem pairwise_of_dropped_eq_nil {source : Text} {edits : List Edit}
    (hfits : ∀ e ∈ edits, Fits source e) (h : (applyAll source edits).dropped = []) :
    edits.Pairwise fun e e' =>
      e.position = e'.position → e.stop ≤ e.position ∨ e'.stop ≤ e'.position := by
  rw [applyAll_dropped_eq_nil_iff hfits] at h
  have hordered : (ordered edits).Pairwise fun e e' =>
      e.position = e'.position → e.stop ≤ e.position ∨ e'.stop ≤ e'.position :=
    h.imp fun hle heq => .inl (heq ▸ hle)
  refine (ordered_perm edits).pairwise_iff ?_ |>.mp hordered
  intro e e' h heq
  exact (h heq.symm).symm

/-- Where nothing is dropped, all edits are applied. -/
theorem applied_of_dropped_eq_nil {source : Text} {edits : List Edit}
    (h : (applyAll source edits).dropped = []) :
    (applyAll source edits).applied = ordered edits := by
  rw [applyAll_eq] at h ⊢
  exact kept_of_inOrder (lost_eq_nil_iff.mp h)

end Edit
end SourceStamp
