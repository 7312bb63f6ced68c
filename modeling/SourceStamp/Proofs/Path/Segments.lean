import SourceStamp.ModulePath
import SourceStamp.Proofs.Text.Pieces

/-!
# Segments of module paths

What the steps that shorten a path do to its segments.

- `ModulePath.segments`, `ModulePath.HasRoot`: the segments of a path, and whether a project root is
  among its directories.
- `ModulePath.exists_of_fromRoot?`, `ModulePath.exists_of_lastTwo`: the pieces of a path from a
  project root on, and of the last two segments.
- `ModulePath.withoutExtension_cases`: what is taken away with an extension, so only the last piece
  changes (`ModulePath.exists_pieces_withoutExtension`).
- `ModulePath.pieces_slashed`: slashes in the place of backslashes separate the same pieces.
-/

namespace SourceStamp
namespace ModulePath

open Text (backslash pieces lastPiece Undivided withoutFinalNewline)

variable {path found : Text}

/-- The segments of a path that are not empty. -/
def segments (path : Text) : List Text := (pieces isSeparator path).filter (!·.isEmpty)

/-- A directory of the path has the name of a project root. -/
def HasRoot (path : Text) : Prop :=
  ∃ root ∈ projectRoots, root ∈ (pieces isSeparator path).dropLast

instance (path : Text) : Decidable (HasRoot path) :=
  inferInstanceAs (Decidable (∃ root ∈ projectRoots, root ∈ (pieces isSeparator path).dropLast))

/-- The path with slashes in the place of backslashes. -/
def slashed (path : Text) : Text := path.map fun c => if c = backslash then '/' else c

theorem isSeparator_slash : isSeparator '/' = true := by decide

theorem isSeparator_backslash : isSeparator backslash = true := by decide

theorem length_segments_le (path : Text) :
    (segments path).length ≤ (pieces isSeparator path).length := List.length_filter_le _ _

/-! ## From a project root on -/

theorem fromRoot?_isSome_iff : (fromRoot? path).isSome = true ↔ HasRoot path := by
  simp [fromRoot?, HasRoot]

theorem fromRoot?_eq_none_iff : fromRoot? path = none ↔ ¬ HasRoot path := by
  rw [← fromRoot?_isSome_iff, Option.not_isSome_iff_eq_none]

/-- The path from a project root on: the root and at least one more piece, between slashes. -/
theorem exists_of_fromRoot? (h : fromRoot? path = some found) :
    ∃ root ∈ projectRoots, ∃ rest, rest ≠ [] ∧ pieces isSeparator found = root :: rest ∧
      backslash ∉ found := by
  obtain ⟨root, hroot, rfl⟩ := Option.map_eq_some_iff.mp h
  -- the root is a directory, so at least the last piece of the path comes after it
  have hmem : root ∈ (pieces isSeparator path).dropLast := by
    simpa using List.find?_some hroot
  have hpieces := Text.dropLast_pieces_append isSeparator path
  obtain ⟨before, after, hsplit, hbefore⟩ := List.eq_append_cons_of_mem hmem
  have hparts : (pieces isSeparator path).dropWhile (· != root) =
      root :: (after ++ [lastPiece isSeparator path]) := by
    rw [← hpieces, hsplit, List.append_assoc, List.dropWhile_append_of_pos]
    · simp
    · exact fun piece hpiece => bne_iff_ne.mpr fun heq => hbefore (heq ▸ hpiece)
  have hundivided : ∀ piece ∈ root :: (after ++ [lastPiece isSeparator path]),
      Undivided isSeparator piece := by
    rw [← hparts]
    exact fun piece hpiece =>
      Text.undivided_of_mem_pieces ((List.dropWhile_suffix _).subset hpiece)
  have hbackslash := isSeparator_backslash
  rw [hparts]
  refine ⟨root, List.mem_of_find?_eq_some hroot, after ++ [lastPiece isSeparator path],
    List.concat_ne_nil _ _, ?_, ?_⟩
  · exact Text.pieces_join isSeparator_slash (List.cons_ne_nil _ _) hundivided
  · refine Text.not_mem_join (by decide) fun piece hpiece hmem => ?_
    rw [hundivided piece hpiece _ hmem] at hbackslash
    cases hbackslash

/-- The root stays a directory. -/
theorem hasRoot_of_fromRoot? (h : fromRoot? path = some found) : HasRoot found := by
  obtain ⟨root, hroot, rest, hrest, hpieces, -⟩ := exists_of_fromRoot? h
  refine ⟨root, hroot, ?_⟩
  rw [hpieces, List.dropLast_cons_of_ne_nil hrest]
  exact List.mem_cons_self

/-! ## The last two segments -/

theorem lastTwo_of_le (h : (segments path).length ≤ 2) : lastTwo path = path :=
  if_neg (Nat.not_lt.mpr h)

theorem exists_of_lastTwo (h : 2 < (segments path).length) :
    ∃ a b, pieces isSeparator (lastTwo path) = [a, b] := by
  have hlast : lastTwo path =
      Text.join ['/'] ((segments path).drop ((segments path).length - 2)) := if_pos h
  have htwo : ((segments path).drop ((segments path).length - 2)).length = 2 := by
    rw [List.length_drop]
    omega
  obtain ⟨a, b, hab⟩ := List.length_eq_two.mp htwo
  refine ⟨a, b, ?_⟩
  rw [hlast, hab]
  refine Text.pieces_join isSeparator_slash (List.cons_ne_nil _ _) fun piece hpiece => ?_
  rw [← hab] at hpiece
  exact Text.undivided_of_mem_pieces (List.mem_filter.mp (List.mem_of_mem_drop hpiece)).1

/-! ## Extensions -/

theorem not_isSeparator_of_mem_extensions : ∀ e ∈ extensions, ∀ c ∈ e, isSeparator c = false := by
  simp [extensions, isSeparator, backslash]

theorem ne_nil_of_mem_extensions : ∀ e ∈ extensions, e ≠ [] := by
  decide

theorem exists_eq_withoutFinalNewline_append (t : Text) :
    ∃ rest, (rest = [] ∨ rest = ['\n']) ∧ t = withoutFinalNewline t ++ rest := by
  unfold withoutFinalNewline
  split
  · next h => exact ⟨['\n'], .inr rfl, (List.dropLast_append_getLast? _ h).symm⟩
  · exact ⟨[], .inl rfl, (List.append_nil t).symm⟩

/-- **Inversion**: an extension is taken from the end, or from before a line feed there. -/
theorem withoutExtension_cases (path : Text) :
    withoutExtension path = path ∨
      ∃ stem e rest, e ∈ extensions ∧ (rest = [] ∨ rest = ['\n']) ∧ path = stem ++ (e ++ rest) ∧
        withoutExtension path = stem ++ rest := by
  obtain ⟨rest, hrest, hpath⟩ := exists_eq_withoutFinalNewline_append path
  have hdrop : path.drop (withoutFinalNewline path).length = rest :=
    (congrArg (List.drop _) hpath).trans List.drop_left
  unfold withoutExtension
  dsimp only
  split
  · next e he =>
    have hsuffix := List.find?_some he
    obtain ⟨stem, hstem⟩ := List.isSuffixOf_iff_suffix.mp hsuffix
    refine .inr ⟨stem, e, rest, List.mem_of_find?_eq_some he, hrest, ?_, ?_⟩
    · rw [← List.append_assoc, hstem]
      exact hpath
    · rw [hdrop, ← hstem, List.length_append, Nat.add_sub_cancel, List.take_left]
  · exact .inl rfl

/-- What no extension holds is as often in the path without one. -/
theorem countP_withoutExtension {p : Char → Bool} (hp : ∀ e ∈ extensions, e.countP p = 0)
    (path : Text) : (withoutExtension path).countP p = path.countP p := by
  rcases withoutExtension_cases path with h | ⟨stem, e, rest, he, -, hpath, h⟩
  · rw [h]
  · rw [h, hpath, List.countP_append, List.countP_append, List.countP_append, hp e he, Nat.zero_add]

/-- An extension belongs to the last piece. -/
theorem exists_pieces_withoutExtension (path : Text) :
    ∃ last, pieces isSeparator (withoutExtension path) =
        (pieces isSeparator path).dropLast ++ [last] ∧
      (last ≠ [] → lastPiece isSeparator path ≠ []) := by
  rcases withoutExtension_cases path with h | ⟨stem, e, rest, he, hrest, hpath, h⟩
  · rw [h]
    exact ⟨_, (Text.dropLast_pieces_append isSeparator path).symm, id⟩
  · have hundivided : Undivided isSeparator rest := by
      rcases hrest with rfl | rfl
      · exact fun c hc => absurd hc List.not_mem_nil
      · exact List.forall_mem_singleton.mpr (by decide)
    have hpieces : pieces isSeparator path =
        (pieces isSeparator stem).dropLast ++ [lastPiece isSeparator stem ++ (e ++ rest)] := by
      rw [hpath]
      exact Text.pieces_append (List.forall_mem_append.mpr
        ⟨not_isSeparator_of_mem_extensions e he, hundivided⟩) stem
    refine ⟨lastPiece isSeparator stem ++ rest, ?_, fun _ => ?_⟩
    · rw [h, Text.pieces_append hundivided, hpieces, List.dropLast_concat]
    · show (pieces isSeparator path).getLast _ ≠ []
      simp only [hpieces, List.getLast_concat]
      exact List.append_ne_nil_of_right_ne_nil _
        (List.append_ne_nil_of_left_ne_nil (ne_nil_of_mem_extensions e he) rest)

/-! ## Slashes -/

theorem isSeparator_slashed (c : Char) :
    isSeparator (if c = backslash then '/' else c) = isSeparator c := by
  split
  · next h => rw [h, isSeparator_slash, isSeparator_backslash]
  · rfl

theorem pieces_slashed (path : Text) :
    pieces isSeparator (slashed path) = pieces isSeparator path := by
  induction path with
  | nil => rfl
  | cons c path ih =>
    show pieces isSeparator ((if c = backslash then '/' else c) :: slashed path) = _
    have hc := isSeparator_slashed c
    cases hsep : isSeparator c with
    | true =>
      rw [hsep] at hc
      rw [Text.pieces_cons_of_separator hc, Text.pieces_cons_of_separator hsep, ih]
    | false =>
      have hne : c ≠ backslash := by
        rintro rfl
        rw [isSeparator_backslash] at hsep
        cases hsep
      obtain ⟨first, rest, hpieces⟩ := Text.exists_pieces_eq isSeparator path
      rw [if_neg hne, Text.pieces_cons_of_not_separator hsep (ih.trans hpieces),
        Text.pieces_cons_of_not_separator hsep hpieces]

theorem slashed_eq_self (h : backslash ∉ path) : slashed path = path := by
  refine (List.map_congr_left fun c hc => if_neg ?_).trans path.map_id
  rintro rfl
  exact h hc

end ModulePath
end SourceStamp
