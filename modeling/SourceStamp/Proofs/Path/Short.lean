import SourceStamp.Proofs.Call.StampText
import SourceStamp.Proofs.Path.Segments

/-!
# Short stamp names

The path that a stamp names tells where a file stands within its project, not on the machine.

- `ModulePath.IsShort`: a path that starts with a project root or has two segments at most.
- `ModulePath.isShort_lastTwo`, `ModulePath.isShort_of_fromRoot?`: both ways to shorten a path do.
- `ModulePath.stampName_short`: stamps name short paths, except for a file of a dependency below a
  project root: nothing shortens its path.
-/

namespace SourceStamp
namespace ModulePath

open Text (backslash pieces)

variable {path found : Text}

/-- A short path starts with a project root, or it has two segments at most. -/
def IsShort (path : Text) : Prop :=
  (∃ root ∈ projectRoots, (pieces isSeparator path).head? = some root) ∨
    (segments path).length ≤ 2

instance (path : Text) : Decidable (IsShort path) :=
  inferInstanceAs (Decidable ((∃ root ∈ projectRoots, _ = some root) ∨ _))

/-! ## What keeps a path short -/

theorem isShort_congr {path' : Text} (h : pieces isSeparator path = pieces isSeparator path') :
    IsShort path ↔ IsShort path' := by
  rw [IsShort, IsShort, segments, segments, h]

theorem isShort_of_pieces (h : (pieces isSeparator path).length ≤ 2) : IsShort path :=
  .inr ((length_segments_le path).trans h)

/-- An extension is no segment, and it leaves the first piece alone unless there is no other. -/
theorem IsShort.withoutExtension (h : IsShort path) : IsShort (withoutExtension path) := by
  obtain ⟨last, hpieces, hlast⟩ := exists_pieces_withoutExtension path
  have hpath := Text.dropLast_pieces_append isSeparator path
  generalize (pieces isSeparator path).dropLast = before at hpieces hpath
  rcases h with ⟨root, hroot, hhead⟩ | hle
  · cases before with
    | nil => exact isShort_of_pieces (by rw [hpieces]; exact Nat.le_succ 1)
    | cons first before =>
      rw [← hpath] at hhead
      exact .inl ⟨root, hroot, by rw [hpieces]; exact hhead⟩
  · refine .inr (Nat.le_trans ?_ hle)
    rw [segments, segments, hpieces, ← hpath, List.filter_append, List.filter_append,
      List.length_append, List.length_append]
    refine Nat.add_le_add_left ?_ _
    cases last with
    | nil => exact Nat.zero_le _
    | cons c last => simp [hlast (List.cons_ne_nil c last)]

theorem isShort_of_fromRoot? (h : fromRoot? path = some found) : IsShort found := by
  obtain ⟨root, hroot, rest, -, hpieces, -⟩ := exists_of_fromRoot? h
  exact .inl ⟨root, hroot, by rw [hpieces]; rfl⟩

theorem isShort_lastTwo (path : Text) : IsShort (lastTwo path) := by
  rcases Nat.lt_or_ge 2 (segments path).length with hlt | hle
  · obtain ⟨a, b, hpieces⟩ := exists_of_lastTwo hlt
    exact isShort_of_pieces (by rw [hpieces]; exact Nat.le_refl 2)
  · rw [lastTwo_of_le hle]
    exact .inr hle

/-! ## Stamp names -/

/-- The path that is cut short for a stamp: the shown one, or the raw one if nothing is shown. -/
def named (path : Text) : Text :=
  if (display path).isEmpty then withoutQuery path else display path

theorem stampName_eq (path : Text) :
    stampName path = withoutExtension (slashed
      (if isBundled (withoutQuery path) || (fromRoot? (named path)).isSome then named path
      else lastTwo (named path))) := rfl

/-- What stands in the path of a file that is not bundled: the path within the project, or else the
whole of it. -/
theorem display_of_not_bundled (hbundled : isBundled (withoutQuery path) = false) :
    display path =
      if isForeign (withoutScheme (withoutQuery path)) then []
      else (fromRoot? (withoutScheme (withoutQuery path))).getD
        (withoutScheme (withoutQuery path)) := by
  rw [display, hbundled]
  rfl

theorem eq_append_of_after? {start t rest : Text} (h : after? start t = some rest) :
    t = start ++ rest := by
  unfold after? at h
  split at h
  · next hprefix =>
    obtain ⟨tail, rfl⟩ := List.isPrefixOf_iff_prefix.mp hprefix
    rw [List.drop_left] at h
    rw [Option.some.inj h]
  · cases h

/-- Nothing but the scheme: there is no project root in it. -/
theorem fromRoot?_of_withoutScheme_eq_nil (h : withoutScheme path = []) :
    fromRoot? path = none := by
  unfold withoutScheme at h
  cases hafter : after? "file://".toList path with
  | none =>
    rw [hafter] at h
    obtain rfl : path = [] := h
    decide
  | some rest =>
    rw [hafter] at h
    obtain rfl : rest = [] := h
    rw [eq_append_of_after? hafter]
    decide

/-- A path that is named is the raw one of a foreign file, or it starts with a project root, or it
has none. -/
theorem named_cases (hbundled : isBundled (withoutQuery path) = false) :
    (isForeign (withoutScheme (withoutQuery path)) = true ∧ named path = withoutQuery path) ∨
      (∃ raw, fromRoot? raw = some (named path)) ∨ fromRoot? (named path) = none := by
  have hdisplay := display_of_not_bundled hbundled
  cases hforeign : isForeign (withoutScheme (withoutQuery path)) with
  | true =>
    rw [hforeign, if_pos rfl] at hdisplay
    refine .inl ⟨rfl, ?_⟩
    rw [named, hdisplay]
    rfl
  | false =>
    rw [hforeign, if_neg Bool.false_ne_true] at hdisplay
    refine .inr ?_
    cases hroot : fromRoot? (withoutScheme (withoutQuery path)) with
    | some found =>
      have hne : found ≠ [] := by
        obtain ⟨root, -, rest, hrest, hpieces, -⟩ := exists_of_fromRoot? hroot
        rintro rfl
        exact hrest (List.cons.inj hpieces).2.symm
      rw [hroot] at hdisplay
      refine .inl ⟨_, hroot.trans ?_⟩
      rw [named, hdisplay, if_neg (by simpa using hne)]
      rfl
    | none =>
      -- the path without its scheme is shown, or the raw one if nothing is left of it
      rw [hroot] at hdisplay
      refine .inr ?_
      rw [named, hdisplay]
      split
      · next hempty => exact fromRoot?_of_withoutScheme_eq_nil (List.isEmpty_iff.mp hempty)
      · exact hroot

/-- **Stamps name short paths.** No name holds a backslash. The name of a file that is not bundled
is short, unless the file belongs to a dependency or the runtime and a directory above it is named
like a project root: such a path is kept as it is. -/
theorem stampName_short (path : Text) (hbundled : isBundled (withoutQuery path) = false) :
    backslash ∉ stampName path ∧
      if isForeign (withoutScheme (withoutQuery path)) = true ∧ HasRoot (withoutQuery path) then
        stampName path = withoutExtension (slashed (withoutQuery path))
      else IsShort (stampName path) := by
  refine ⟨backslash_not_mem_stampName path, ?_⟩
  rw [stampName_eq, hbundled, Bool.false_or]
  split
  · next h =>
    obtain ⟨hforeign, hroot⟩ := h
    have hnamed : named path = withoutQuery path := by
      rw [named, display_of_not_bundled hbundled, if_pos hforeign]
      rfl
    rw [hnamed, if_pos (fromRoot?_isSome_iff.mpr hroot)]
  · next h =>
    refine IsShort.withoutExtension ((isShort_congr (pieces_slashed _)).mpr ?_)
    split
    · next hsome =>
      rcases named_cases hbundled with ⟨hforeign, hnamed⟩ | ⟨raw, hraw⟩ | hnone
      · rw [hnamed, fromRoot?_isSome_iff] at hsome
        exact absurd ⟨hforeign, hsome⟩ h
      · exact isShort_of_fromRoot? hraw
      · rw [hnone] at hsome
        cases hsome
    · exact isShort_lastTwo _

/-- A dependency of a project that stands in a directory `app`, and one that does not. -/
theorem stampName_short_dependency :
    (isBundled (withoutQuery "/home/me/app/node_modules/pkg/index.js".toList) = false ∧
      backslash ∉ stampName "/home/me/app/node_modules/pkg/index.js".toList ∧
      stampName "/home/me/app/node_modules/pkg/index.js".toList =
        "/home/me/app/node_modules/pkg/index".toList ∧
      ¬ IsShort (stampName "/home/me/app/node_modules/pkg/index.js".toList)) ∧
    (isBundled (withoutQuery "C:\\x\\node_modules\\pkg\\index.js".toList) = false ∧
      IsShort (stampName "C:\\x\\node_modules\\pkg\\index.js".toList)) := by
  obtain ⟨hbackslash, hname⟩ :=
    stampName_short "/home/me/app/node_modules/pkg/index.js".toList (by decide)
  obtain ⟨-, hshort⟩ := stampName_short "C:\\x\\node_modules\\pkg\\index.js".toList (by decide)
  rw [if_pos (by decide)] at hname
  rw [if_neg (by decide)] at hshort
  have hwhole : stampName "/home/me/app/node_modules/pkg/index.js".toList =
      "/home/me/app/node_modules/pkg/index".toList := hname.trans (by decide)
  refine ⟨⟨by decide, hbackslash, hwhole, ?_⟩, by decide, hshort⟩
  rw [hwhole]
  decide

end ModulePath
end SourceStamp
