import Mathlib.Data.List.Basic
import SourceStamp.Text.Basic

/-!
# Pieces between separators

- `Text.Undivided`: a text without separators, as every piece is (`Text.undivided_of_mem_pieces`).
- `Text.pieces_append_cons`, `Text.pieces_append`: the pieces of a text that goes on after a
  separator, and of one that goes on without.
- `Text.pieces_join`: joining undivided texts is undone by splitting.
- `Text.lastPiece_append`: a separator in what follows hides the text before it.
-/

namespace SourceStamp.Text

variable {isSeparator : Char → Bool}

/-- No character of the text is a separator. -/
def Undivided (isSeparator : Char → Bool) (t : Text) : Prop := ∀ c ∈ t, isSeparator c = false

/-! ## Splitting -/

theorem pieces_cons_of_separator {c : Char} (hc : isSeparator c = true) (t : Text) :
    pieces isSeparator (c :: t) = [] :: pieces isSeparator t := by
  rw [pieces, if_pos hc]

/-- A character that is no separator belongs to the first piece of what follows. -/
theorem pieces_cons_of_not_separator {c : Char} (hc : isSeparator c = false) {t piece : Text}
    {rest : List Text} (ht : pieces isSeparator t = piece :: rest) :
    pieces isSeparator (c :: t) = (c :: piece) :: rest := by
  rw [pieces, if_neg (by rw [hc]; exact Bool.false_ne_true), ht]

theorem exists_pieces_eq (isSeparator : Char → Bool) (t : Text) :
    ∃ piece rest, pieces isSeparator t = piece :: rest :=
  List.exists_cons_of_ne_nil (pieces_ne_nil isSeparator t)

theorem dropLast_pieces_append (isSeparator : Char → Bool) (t : Text) :
    (pieces isSeparator t).dropLast ++ [lastPiece isSeparator t] = pieces isSeparator t :=
  List.dropLast_append_getLast (pieces_ne_nil isSeparator t)

theorem undivided_of_mem_pieces {t piece : Text} (h : piece ∈ pieces isSeparator t) :
    Undivided isSeparator piece := by
  induction t generalizing piece with
  | nil =>
    rw [List.mem_singleton.mp h]
    exact fun c hc => absurd hc List.not_mem_nil
  | cons c t ih =>
    cases hc : isSeparator c with
    | true =>
      rw [pieces_cons_of_separator hc] at h
      rcases List.mem_cons.mp h with rfl | h
      · exact fun c hc => absurd hc List.not_mem_nil
      · exact ih h
    | false =>
      obtain ⟨first, rest, ht⟩ := exists_pieces_eq isSeparator t
      rw [pieces_cons_of_not_separator hc ht] at h
      rw [ht] at ih
      rcases List.mem_cons.mp h with rfl | h
      · exact List.forall_mem_cons.mpr ⟨hc, ih List.mem_cons_self⟩
      · exact ih (List.mem_cons_of_mem first h)

/-- There is one more piece than separators. -/
theorem length_pieces (isSeparator : Char → Bool) (t : Text) :
    (pieces isSeparator t).length = t.countP isSeparator + 1 := by
  induction t with
  | nil => rfl
  | cons c t ih =>
    cases hc : isSeparator c with
    | true => rw [pieces_cons_of_separator hc, List.length_cons, ih, List.countP_cons_of_pos hc]
    | false =>
      obtain ⟨first, rest, ht⟩ := exists_pieces_eq isSeparator t
      rw [pieces_cons_of_not_separator hc ht, List.length_cons, ← List.length_cons (a := first),
        ← ht, ih, List.countP_cons_of_neg (by rw [hc]; exact Bool.false_ne_true)]

/-- A separator between two texts keeps their pieces apart. -/
theorem pieces_append_cons {c : Char} (hc : isSeparator c = true) (t r : Text) :
    pieces isSeparator (t ++ c :: r) = pieces isSeparator t ++ pieces isSeparator r := by
  induction t with
  | nil => exact pieces_cons_of_separator hc r
  | cons d t ih =>
    cases hd : isSeparator d with
    | true =>
      rw [List.cons_append, pieces_cons_of_separator hd, pieces_cons_of_separator hd, ih]
      rfl
    | false =>
      obtain ⟨first, rest, ht⟩ := exists_pieces_eq isSeparator t
      rw [ht] at ih
      rw [List.cons_append, pieces_cons_of_not_separator hd ih, pieces_cons_of_not_separator hd ht]
      rfl

/-- What follows without a separator belongs to the last piece. -/
theorem pieces_append {r : Text} (hr : Undivided isSeparator r) (t : Text) :
    pieces isSeparator (t ++ r) =
      (pieces isSeparator t).dropLast ++ [lastPiece isSeparator t ++ r] := by
  induction t with
  | nil =>
    induction r with
    | nil => rfl
    | cons c r ih =>
      obtain ⟨hc, hr⟩ := List.forall_mem_cons.mp hr
      exact pieces_cons_of_not_separator hc (ih hr)
  | cons d t ih =>
    obtain ⟨first, rest, ht⟩ := exists_pieces_eq isSeparator t
    unfold lastPiece at ih ⊢
    cases hd : isSeparator d with
    | true =>
      rw [List.cons_append, pieces_cons_of_separator hd, ih]
      simp only [pieces_cons_of_separator hd, ht, List.dropLast_cons_cons, List.cons_append,
        List.getLast_cons_cons]
    | false =>
      simp only [ht] at ih
      simp only [pieces_cons_of_not_separator hd ht]
      -- the character joins the first piece, which is the last one too if there is no other
      cases rest with
      | nil => exact pieces_cons_of_not_separator hd ih
      | cons next rest => exact pieces_cons_of_not_separator hd ih

theorem pieces_of_undivided {t : Text} (ht : Undivided isSeparator t) :
    pieces isSeparator t = [t] := pieces_append ht []

/-- **The last piece** of a text that goes on: what goes on with a separator hides what comes
before. -/
theorem lastPiece_append (isSeparator : Char → Bool) (t r : Text) :
    lastPiece isSeparator (t ++ r) =
      if r.any isSeparator then lastPiece isSeparator r else lastPiece isSeparator t ++ r := by
  split
  · next h =>
    -- any separator of `r` will do: the text before it adds pieces in front of the last one only
    obtain ⟨c, hmem, hc⟩ := List.any_eq_true.mp h
    obtain ⟨before, after, rfl⟩ := List.append_of_mem hmem
    have hafter := pieces_ne_nil isSeparator after
    unfold lastPiece
    simp only [← List.append_assoc, pieces_append_cons hc, List.getLast_append_of_ne_nil _ hafter]
  · next h =>
    have hr : Undivided isSeparator r := fun c hc =>
      Bool.eq_false_iff.mpr fun hsep => h (List.any_eq_true.mpr ⟨c, hc, hsep⟩)
    show (pieces isSeparator (t ++ r)).getLast _ = _
    simp only [pieces_append hr, List.getLast_concat]

theorem lastPiece_suffix (isSeparator : Char → Bool) (t : Text) :
    lastPiece isSeparator t <:+ t := by
  induction t with
  | nil => exact List.suffix_refl _
  | cons c t ih =>
    have happend := lastPiece_append isSeparator [c] t
    rw [List.singleton_append] at happend
    rw [happend]
    split
    · exact ih.trans (List.suffix_cons c t)
    · cases hc : isSeparator c with
      | true => simp [lastPiece, pieces, hc]
      | false => simp [lastPiece, pieces, hc]

/-! ## Joining -/

theorem join_cons_cons (separator t u : Text) (ts : List Text) :
    join separator (t :: u :: ts) = t ++ separator ++ join separator (u :: ts) := rfl

theorem join_append (separator : Text) {ts us : List Text} (ht : ts ≠ []) (hu : us ≠ []) :
    join separator (ts ++ us) = join separator ts ++ separator ++ join separator us := by
  induction ts with
  | nil => exact absurd rfl ht
  | cons t ts ih =>
    cases ts with
    | nil =>
      obtain ⟨u, us, rfl⟩ := List.exists_cons_of_ne_nil hu
      simp [join]
    | cons t' ts =>
      rw [List.cons_append, List.cons_append, join_cons_cons, ← List.cons_append,
        ih (List.cons_ne_nil _ _), join_cons_cons]
      simp only [List.append_assoc]

theorem not_mem_join {separator : Text} {c : Char} (hc : c ∉ separator) {ts : List Text}
    (hts : ∀ t ∈ ts, c ∉ t) : c ∉ join separator ts := by
  induction ts with
  | nil => exact List.not_mem_nil
  | cons t ts ih =>
    obtain ⟨ht, hts⟩ := List.forall_mem_cons.mp hts
    cases ts with
    | nil => exact ht
    | cons u ts =>
      rw [join_cons_cons, List.mem_append, List.mem_append, not_or, not_or]
      exact ⟨⟨ht, hc⟩, ih hts⟩

theorem pieces_join {c : Char} (hc : isSeparator c = true) {ts : List Text} (hne : ts ≠ [])
    (hts : ∀ t ∈ ts, Undivided isSeparator t) : pieces isSeparator (join [c] ts) = ts := by
  induction ts with
  | nil => exact absurd rfl hne
  | cons t ts ih =>
    obtain ⟨ht, hts⟩ := List.forall_mem_cons.mp hts
    cases ts with
    | nil => exact pieces_of_undivided ht
    | cons u ts =>
      rw [join_cons_cons, List.append_assoc, List.singleton_append, pieces_append_cons hc,
        pieces_of_undivided ht, ih (List.cons_ne_nil u ts) hts]
      rfl

end SourceStamp.Text
