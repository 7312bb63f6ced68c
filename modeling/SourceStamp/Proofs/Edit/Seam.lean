import SourceStamp.Proofs.Edit.Pass
import SourceStamp.Proofs.Lexis.Classification
import SourceStamp.Proofs.Lexis.CodeText

/-!
# Reading across edits

An edit is *seamless* when it begins and ends in code and its text is inert: then the source text
after it is read as if the edit were not there.

- `Edit.Seamless`: such an edit.
- `Edit.shift`: by how much the edits move a character, and `Edit.relocated`: where to.
- `Edit.weave_keeps`, `Edit.applyAll_keeps`: a character that no edit deletes is found again there,
  in the same lexical state.
-/

namespace SourceStamp
namespace Edit

/-- An edit that the text around it does not notice. -/
structure Seamless (source : Text) (e : Edit) : Prop extends Fits source e where
  position_inCode : (readingAt source e.position.toNat).InCode
  stop_inCode : (readingAt source e.stop.toNat).InCode
  inert : Reading.Inert e.insertText

/-- By how much the edits move a character at an offset. -/
def shift (edits : List Edit) (offset : Nat) : Int :=
  match edits with
  | [] => 0
  | e :: es =>
    if e.position ≤ offset then e.insertText.length - e.deleteLength + shift es offset
    else shift es offset

/-- Where the edits move a character to. -/
def relocated (edits : List Edit) (offset : Nat) : Nat := (offset + shift edits offset).toNat

/-- Whether an edit deletes the character at an offset. -/
def deletes (e : Edit) (offset : Nat) : Prop := e.position ≤ offset ∧ offset < e.stop

instance (e : Edit) (offset : Nat) : Decidable (e.deletes offset) :=
  inferInstanceAs (Decidable (_ ∧ _))

variable {source : Text}

theorem shift_cons_of_le {e : Edit} {es : List Edit} {i : Nat} (h : e.position ≤ i) :
    shift (e :: es) i = e.insertText.length - e.deleteLength + shift es i := by
  rw [shift, if_pos h]

theorem shift_cons_of_lt {e : Edit} {es : List Edit} {i : Nat} (h : (i : Int) < e.position) :
    shift (e :: es) i = shift es i := by
  rw [shift, if_neg (Int.not_le.mpr h)]

/-- Edits after an offset do not move it. -/
theorem shift_eq_zero {cursor : Int} {es : List Edit} (hfits : ∀ e ∈ es, Fits source e)
    (horder : InOrder source cursor es) {i : Nat} (hi : (i : Int) < cursor) : shift es i = 0 := by
  induction es generalizing cursor with
  | nil => rfl
  | cons e es ih =>
    obtain ⟨h1, -, h3⟩ := horder
    have hle := (hfits e List.mem_cons_self).position_le
    rw [shift_cons_of_lt (by omega)]
    exact ih (fun e' he' => hfits e' (List.mem_cons_of_mem e he')) h3 (by omega)

/-- A stretch of text inside a longer one is read from where it starts. -/
theorem readingAt_append (x y z : Text) {k : Nat} (hk : k ≤ y.length) :
    readingAt (x ++ (y ++ z)) (x.length + k) =
      (readingAt (x ++ (y ++ z)) x.length).read (y ++ z)[k]? (y.take k) := by
  rw [readingAt_add, List.drop_left, List.take_append_of_le_length hk,
    List.getElem?_append_right (Nat.le_add_right _ _), Nat.add_sub_cancel_left]

/-- Between edits the text is read like the source text. -/
theorem agree_of_slice {x z : Text} {a b : Nat} (hab : a ≤ b) (hb : b ≤ source.length)
    (hagree : (readingAt (x ++ ((source.drop a).take (b - a) ++ z)) x.length).Agree
      (readingAt source a)) {k : Nat} (hk : k < b - a) :
    (x ++ ((source.drop a).take (b - a) ++ z))[x.length + k]? = source[a + k]? ∧
      (readingAt (x ++ ((source.drop a).take (b - a) ++ z)) (x.length + k)).Agree
        (readingAt source (a + k)) := by
  have hlen : ((source.drop a).take (b - a)).length = b - a := by
    rw [List.length_take, List.length_drop]
    omega
  have hget : ((source.drop a).take (b - a) ++ z)[k]? = source[a + k]? := by
    rw [List.getElem?_append_left (by omega), List.getElem?_take, if_pos hk, List.getElem?_drop]
  constructor
  · rw [List.getElem?_append_right (Nat.le_add_right _ _), Nat.add_sub_cancel_left, hget]
  · rw [readingAt_append _ _ _ (by omega), hget, readingAt_add, List.take_take,
      Nat.min_eq_left (Nat.le_of_lt hk)]
    exact hagree.read _ _

/-- After a seamless edit the reader is in code. -/
theorem inCode_after {x y z : Text} {a b : Nat} (hab : a ≤ b) (hb : b ≤ source.length)
    (hagree : (readingAt (x ++ ((source.drop a).take (b - a) ++ (y ++ z))) x.length).Agree
      (readingAt source a)) (hcode : (readingAt source b).InCode) (hy : Reading.Inert y) :
    (readingAt (x ++ ((source.drop a).take (b - a) ++ (y ++ z)))
      (x.length + (b - a) + y.length)).InCode := by
  obtain ⟨hclosed, c, hc, hslash, hstar⟩ := hy
  have hlen : ((source.drop a).take (b - a)).length = b - a := by
    rw [List.length_take, List.length_drop]
    omega
  have hadd : a + (b - a) = b := by omega
  -- the stretch before the edit, first as the source text has it, then before the edit's text
  have hsource := readingAt_add source a (b - a)
  rw [hadd] at hsource
  have hbefore : (readingAt (x ++ ((source.drop a).take (b - a) ++ (y ++ z)))
      (x.length + (b - a))).InCode := by
    have hnext : ((source.drop a).take (b - a) ++ (y ++ z))[b - a]? = some c := by
      rw [List.getElem?_append_right (by omega), hlen, Nat.sub_self, ← List.head?_eq_getElem?,
        List.head?_append, hc, Option.some_or]
    rw [readingAt_append _ _ _ (by omega), hnext, List.take_of_length_le (Nat.le_of_eq hlen)]
    have hover := hagree.read (some c) ((source.drop a).take (b - a))
    refine hover.symm.inCode ?_
    rw [Reading.read_change_following (by simpa using hslash) (by simpa using hstar)
      (hsource ▸ hcode), ← hsource]
    exact hcode
  rw [readingAt_add, ← List.append_assoc x, List.drop_left' (by rw [List.length_append, hlen]),
    List.take_left, List.append_assoc]
  exact hclosed _ _ hbefore

/-- **The step over edits**: a character that no edit deletes is found where the edits move it, and
is read there as in the source text. Here `x` is what a pass has produced up to the offset `cursor`
of the source text. -/
theorem weave_keeps {es : List Edit} (hseam : ∀ e ∈ es, Seamless source e) (x : Text) {cursor : Nat}
    (hcursor : cursor ≤ source.length) (horder : InOrder source cursor es)
    (hagree : (readingAt (x ++ weave source cursor es) x.length).Agree (readingAt source cursor))
    {i : Nat} (hle : cursor ≤ i) (hlt : i < source.length) (hkept : ∀ e ∈ es, ¬ e.deletes i) :
    ∃ j : Nat, (j : Int) = x.length + (i - cursor) + shift es i ∧
      (x ++ weave source cursor es)[j]? = source[i]? ∧
        (readingAt (x ++ weave source cursor es) j).Agree (readingAt source i) := by
  induction es generalizing x cursor with
  | nil =>
    rw [weave_nil hcursor] at hagree ⊢
    obtain ⟨k, rfl⟩ := Nat.exists_eq_add_of_le hle
    refine ⟨x.length + k, ?_, agree_of_slice hcursor (Nat.le_refl _) hagree (by omega)⟩
    simp only [shift]
    omega
  | cons e es ih =>
    have he := hseam e List.mem_cons_self
    have hes := fun e' he' => hseam e' (List.mem_cons_of_mem e he')
    obtain ⟨hcursor', hstop', horder'⟩ := horder
    obtain ⟨a, ha⟩ := Int.eq_ofNat_of_zero_le he.position_nonneg
    obtain ⟨b, hb⟩ := Int.eq_ofNat_of_zero_le (Int.le_trans he.position_nonneg he.position_le)
    have hab := he.position_le
    rw [ha] at hcursor'
    rw [hb] at hstop' horder'
    rw [ha, hb] at hab
    rw [weave_cons ha hb (by omega) (by omega) es] at hagree ⊢
    rcases Nat.lt_or_ge i a with hlt' | hge
    · -- the character stands before the edit
      obtain ⟨k, rfl⟩ := Nat.exists_eq_add_of_le hle
      refine ⟨x.length + k, ?_, agree_of_slice (by omega) (by omega) hagree (by omega)⟩
      have hfits := fun e' he' => (hes e' he').toFits
      rw [shift_cons_of_lt (by omega), shift_eq_zero hfits horder' (by omega)]
      omega
    · have hcode := he.position_inCode
      have hcode' := he.stop_inCode
      rw [ha, Int.toNat_natCast] at hcode
      rw [hb, Int.toNat_natCast] at hcode'
      have hafter := inCode_after (by omega) (by omega) hagree hcode he.inert
      have hstay : b ≤ i := by
        have := hkept e List.mem_cons_self
        unfold deletes at this
        omega
      -- the pass goes on after the edit
      have hlen : (x ++ ((source.drop cursor).take (a - cursor) ++ e.insertText)).length =
          x.length + (a - cursor) + e.insertText.length := by
        simp only [List.length_append, List.length_take, List.length_drop]
        omega
      have hsplit : x ++ ((source.drop cursor).take (a - cursor) ++
          (e.insertText ++ weave source b es)) =
          (x ++ ((source.drop cursor).take (a - cursor) ++ e.insertText)) ++ weave source b es := by
        simp only [List.append_assoc]
      rw [hsplit, ← hlen] at hafter
      obtain ⟨j, hj, hkeeps⟩ := ih hes _ (by omega) horder' (hafter.agree hcode') hstay
        fun e' he' => hkept e' (List.mem_cons_of_mem e he')
      rw [hsplit]
      refine ⟨j, ?_, hkeeps⟩
      have hdelete : e.deleteLength = b - a := by
        rw [← hb, ← ha, stop]
        omega
      rw [hj, hlen, shift_cons_of_le (by omega), hdelete]
      omega

/-- **Reading across edits**: where all edits are seamless, each character that no applied one
deletes is found where they move it, in the same lexical state. -/
theorem applyAll_keeps {edits : List Edit} (hseam : ∀ e ∈ edits, Seamless source e) {i : Nat}
    (hlt : i < source.length) (hkept : ∀ e ∈ (applyAll source edits).applied, ¬ e.deletes i) :
    (applyAll source edits).text[relocated (applyAll source edits).applied i]? = source[i]? ∧
      classify (applyAll source edits).text (relocated (applyAll source edits).applied i) =
        classify source i := by
  rw [applyAll_eq] at hkept ⊢
  have hseam' : ∀ e ∈ kept source 0 (ordered edits), Seamless source e := fun e he =>
    hseam e ((ordered_perm edits).mem_iff.mp ((kept_sublist _ _ _).subset he))
  obtain ⟨j, hj, hget, hagree⟩ := @weave_keeps source _ hseam' [] 0 (Nat.zero_le _)
    (kept_inOrder source 0 _) (Reading.Agree.refl _) i (Nat.zero_le _) hlt hkept
  have hrelocated : relocated (kept source 0 (ordered edits)) i = j := by
    rw [relocated]
    simp at hj
    omega
  rw [List.nil_append] at hget hagree
  rw [hrelocated, classify_eq, classify_eq]
  exact ⟨hget, hagree.state_eq⟩

end Edit
end SourceStamp
