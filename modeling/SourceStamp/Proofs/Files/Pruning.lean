import Mathlib.Data.List.DropRight
import SourceStamp.Proofs.Files.Walk
import SourceStamp.Proofs.Text.Pieces

/-!
# Pruned directories

A walk that follows the usual choice of files does not miss any by leaving out directories: what
the excluding pattern finds in the pathname of a directory it also finds in the pathname of each
file below.

- `Pattern.isLocal`: patterns that do not look at what follows, nor do they at the end of the text.
- `Pattern.search_append`: what such a pattern finds in a text it finds in a longer text.
- `FileSelection.IsLocal`: choices that exclude with a text all longer ones.
- `FileSelection.enters_of_accepts`: no pruned directory stands above an accepted file.
-/

namespace SourceStamp

/-! ## Patterns in longer texts -/

/-- A place with more text after it. -/
def Place.append (s : Place) (t : Text) : Place := { s with rest := s.rest ++ t }

namespace Pattern

/-- Whether a pattern looks at no more than the characters that it takes, and at the start of the
text. -/
def isLocal : Pattern → Bool
  | empty | char _ | start => true
  | seq p q | either p q => p.isLocal && q.isLocal
  | finish _ | boundary _ | repeated .. => false

theorem mem_reach {f : Place → List Place} {places : List Place} {e : Place} :
    e ∈ reach f places ↔ ∃ s ∈ places, e ∈ f s := by
  rw [reach, List.mem_eraseDups, List.mem_flatMap]

/-- A match is also one where more text follows. -/
theorem ends_append {p : Pattern} (hlocal : p.isLocal = true) {s e : Place} (h : e ∈ p.ends s)
    (t : Text) : e.append t ∈ p.ends (s.append t) := by
  induction p generalizing s e with
  | empty =>
    obtain rfl := List.mem_singleton.mp h
    exact List.mem_singleton_self _
  | char k =>
    obtain ⟨offset, before, rest⟩ := s
    cases rest with
    | nil => cases h
    | cons c rest =>
      rw [ends] at h
      dsimp only at h
      split at h
      · next hk =>
        obtain rfl := List.mem_singleton.mp h
        simp [ends, Place.append, hk]
      · cases h
  | start =>
    rw [ends] at h
    split at h
    · next hstart =>
      obtain rfl := List.mem_singleton.mp h
      show _ ∈ if e.before.isNone then [e.append t] else []
      rw [if_pos hstart]
      exact List.mem_singleton_self _
    · cases h
  | seq p q ihp ihq =>
    obtain ⟨hp, hq⟩ := Bool.and_eq_true_iff.mp hlocal
    obtain ⟨middle, hmiddle, he⟩ := mem_reach.mp h
    exact mem_reach.mpr ⟨_, ihp hp hmiddle, ihq hq he⟩
  | either p q ihp ihq =>
    obtain ⟨hp, hq⟩ := Bool.and_eq_true_iff.mp hlocal
    rw [ends, List.mem_eraseDups, List.mem_append] at h ⊢
    exact h.imp (ihp hp) (ihq hq)
  | finish strict => cases hlocal
  | boundary isAt => cases hlocal
  | repeated p least most _ => cases hlocal

theorem matchesAt_append {p : Pattern} (hlocal : p.isLocal = true) {s : Place}
    (h : p.matchesAt s = true) (t : Text) : p.matchesAt (s.append t) = true := by
  simp only [matchesAt, Bool.not_eq_true', List.isEmpty_eq_false_iff_exists_mem] at h ⊢
  obtain ⟨e, he⟩ := h
  exact ⟨_, ends_append hlocal he t⟩

theorem searchFrom_append {p : Pattern} (hlocal : p.isLocal = true) {offset : Nat}
    {before : Option Char} {text : Text} (h : p.searchFrom offset before text = true) (t : Text) :
    p.searchFrom offset before (text ++ t) = true := by
  induction text generalizing offset before with
  | nil =>
    have hmatch := matchesAt_append hlocal h t
    cases t with
    | nil => exact h
    | cons c t =>
      rw [List.nil_append, searchFrom, Bool.or_eq_true]
      exact .inl hmatch
  | cons c text ih =>
    rw [searchFrom, Bool.or_eq_true] at h
    rw [List.cons_append, searchFrom, Bool.or_eq_true]
    refine h.imp (fun h => ?_) ih
    exact matchesAt_append hlocal h t

/-- What is found in a text is found in a longer one. -/
theorem search_append {p : Pattern} (hlocal : p.isLocal = true) {text : Text}
    (h : p.search text = true) (t : Text) : p.search (text ++ t) = true :=
  searchFrom_append hlocal h t

end Pattern

/-! ## Texts of pathnames -/

theorem Pathname.text_of_ne_nil {p : Pathname} (h : p.parts ≠ []) :
    p.text = List.replicate p.slashes '/' ++ Text.join ['/'] p.parts := by
  obtain ⟨slashes, parts⟩ := p
  cases slashes with
  | zero =>
    cases parts with
    | nil => exact absurd rfl h
    | cons part parts => rfl
  | succ n => rfl

/-- The text of a pathname below a directory starts with that of the directory and a slash. -/
theorem Pathname.text_under {p : Pathname} (hp : p.parts ≠ []) {names : List Text}
    (hnames : names ≠ []) :
    (p.under names).text = p.text ++ '/' :: Text.join ['/'] names := by
  have hunder : (p.under names).parts ≠ [] := by simp [Pathname.under, hp]
  rw [text_of_ne_nil hunder, text_of_ne_nil hp, under, Text.join_append _ hp hnames]
  simp

namespace FileSelection

theorem withSlashes_append (t u : Text) : withSlashes (t ++ u) = withSlashes t ++ withSlashes u :=
  List.map_append

/-- What is excluded of a text is excluded of longer ones. -/
def IsLocal (f : FileSelection) : Prop := ∀ t u, f.excludes t = true → f.excludes (t ++ u) = true

/-- What is excluded of a directory is excluded of what is below. -/
theorem excludes_of_prunes {selection : FileSelection} (hlocal : selection.IsLocal)
    {directory : Text} (h : selection.prunes directory = true) (t : Text) :
    selection.excludes (withSlashes (directory ++ '/' :: t)) = true := by
  -- the text that the pattern sees starts the other one
  have hprefix : Text.dropEndWhile (· == '/') (withSlashes directory) ++ ['/'] <+:
      withSlashes (directory ++ '/' :: t) := by
    have hslash : withSlashes ('/' :: t) = '/' :: withSlashes t := rfl
    rw [withSlashes_append, hslash]
    generalize withSlashes directory = d
    have hsplit : Text.dropEndWhile (· == '/') d ++ d.rtakeWhile (· == '/') = d :=
      List.rdropWhile_append_rtakeWhile
    cases hdropped : d.rtakeWhile (· == '/') with
    | nil =>
      rw [hdropped, List.append_nil] at hsplit
      rw [hsplit]
      exact ⟨withSlashes t, by simp⟩
    | cons c dropped =>
      have hc : c ∈ d.rtakeWhile (· == '/') := hdropped ▸ List.mem_cons_self
      obtain rfl : c = '/' := by simpa using List.mem_rtakeWhile_imp hc
      rw [hdropped] at hsplit
      refine ⟨dropped ++ '/' :: withSlashes t, ?_⟩
      conv => rhs; rw [← hsplit]
      simp
  obtain ⟨rest, hrest⟩ := hprefix
  rw [← hrest]
  exact hlocal _ rest h

/-- The usual excluding pattern looks at no more than what it finds, whatever files must satisfy
besides. -/
theorem isLocal_standard (includes : Text → Bool) : IsLocal ⟨includes, standard.excludes⟩ := by
  have hlocal : dependencies.isLocal = true := by decide +kernel
  intro t u h
  exact Pattern.search_append hlocal h u

/-- **Pruning loses nothing**: no pruned directory stands above an accepted file. -/
theorem enters_of_accepts {selection : FileSelection} (hlocal : selection.IsLocal)
    {root : Pathname} {names : List Text}
    (h : selection.accepts (root.under names).text = true) :
    selection.enters root names = true := by
  induction names generalizing root with
  | nil => rfl
  | cons name rest ih =>
    by_cases hrest : rest = []
    · subst hrest
      rfl
    · rw [Pathname.under_cons] at h
      refine (enters_cons hrest).mpr ⟨?_, ih h⟩
      rw [Pathname.text_under (by simp) hrest] at h
      by_contra hprune
      have hexcludes := excludes_of_prunes hlocal (Bool.not_eq_false _ ▸ hprune)
        (Text.join ['/'] rest)
      simp [accepts, hexcludes] at h

end FileSelection
end SourceStamp
