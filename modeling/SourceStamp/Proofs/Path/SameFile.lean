import SourceStamp.Proofs.Path.Short
import SourceStamp.Stack.Caller

/-!
# Stamps and locations of one file

A location from a stack trace and a stamp name the same file in two ways. Laying the stamp over the
location keeps the raw path exactly if the two names are alike.

- `ModulePath.NamedAlike`: the paths whose stamp names them as they are shown.
- `ModulePath.withoutExtension_display_eq_iff`: those are the paths for which both names agree.
- `FramePolicy.locationOf_withStamp`: what becomes of the raw path, and of the link.
-/

namespace SourceStamp
namespace ModulePath

open Text (backslash pieces)

variable {path shown : Text}

/-- The stamp of a file names it as it is shown, but for the extension. No backslash stands in what
a bundle tells of the path; of another path a project root is among the directories, or it has two
segments at most and no backslash. -/
def NamedAlike (path : Text) : Prop :=
  if isBundled (withoutQuery path) = true then backslash ∉ display path
  else HasRoot (withoutScheme (withoutQuery path)) ∨
    (segments (withoutScheme (withoutQuery path))).length ≤ 2 ∧
      backslash ∉ withoutScheme (withoutQuery path)

instance (path : Text) : Decidable (NamedAlike path) :=
  inferInstanceAs (Decidable (if isBundled (withoutQuery path) = true then _ else _))

/-! ## The two names -/

theorem backslash_mem_withoutExtension_iff :
    backslash ∈ withoutExtension path ↔ backslash ∈ path := by
  have hcount := countP_withoutExtension (p := (· == backslash)) (by decide) path
  rw [← List.count_pos_iff, ← List.count_pos_iff]
  exact iff_of_eq (congrArg (0 < ·) hcount)

/-- A name that is not cut short differs by its backslashes only. -/
theorem eq_stampName_iff_of_whole (h : stampName path = withoutExtension (slashed shown)) :
    withoutExtension shown = stampName path ↔ backslash ∉ shown := by
  constructor
  · intro heq hmem
    rw [← backslash_mem_withoutExtension_iff, heq] at hmem
    exact backslash_not_mem_stampName path hmem
  · intro hnot
    rw [h, slashed_eq_self hnot]

/-- A name that is cut short has fewer separators. -/
theorem ne_stampName_of_cut (h : stampName path = withoutExtension (slashed (lastTwo shown)))
    (hlong : 2 < (segments shown).length) : withoutExtension shown ≠ stampName path := by
  intro heq
  -- neither an extension nor a backslash in another spelling changes the number of separators
  have hkept := countP_withoutExtension (p := isSeparator) (by decide)
  have hcount : shown.countP isSeparator = (slashed (lastTwo shown)).countP isSeparator := by
    rw [← hkept shown, heq, h, hkept]
  obtain ⟨a, b, htwo⟩ := exists_of_lastTwo hlong
  have hcut := Text.length_pieces isSeparator (slashed (lastTwo shown))
  rw [pieces_slashed, htwo, List.length_cons, List.length_singleton] at hcut
  have hwhole := Text.length_pieces isSeparator shown
  have hle := length_segments_le shown
  omega

/-- **The two names of a file** agree exactly if the path is named alike. -/
theorem withoutExtension_display_eq_iff (hshown : display path ≠ []) :
    withoutExtension (display path) = stampName path ↔ NamedAlike path := by
  have hstamp := stampName_eq path
  have hnamed : named path = display path := if_neg (by simpa using hshown)
  rw [hnamed] at hstamp
  unfold NamedAlike
  cases hbundled : isBundled (withoutQuery path) with
  | true =>
    rw [hbundled, Bool.true_or, if_pos rfl] at hstamp
    rw [if_pos rfl]
    exact eq_stampName_iff_of_whole hstamp
  | false =>
    have hdisplay := display_of_not_bundled hbundled
    have hforeign : ¬ isForeign (withoutScheme (withoutQuery path)) = true := fun hforeign =>
      hshown (hdisplay.trans (if_pos hforeign))
    rw [if_neg hforeign] at hdisplay
    rw [hbundled, Bool.false_or] at hstamp
    rw [if_neg Bool.false_ne_true]
    generalize withoutScheme (withoutQuery path) = bare at hdisplay ⊢
    by_cases hroot : HasRoot bare
    · obtain ⟨found, hfound⟩ := Option.isSome_iff_exists.mp (fromRoot?_isSome_iff.mpr hroot)
      rw [hfound] at hdisplay
      obtain rfl : display path = found := hdisplay
      -- the path from the root on is not cut, as it still has that root
      rw [if_pos (fromRoot?_isSome_iff.mpr (hasRoot_of_fromRoot? hfound))] at hstamp
      obtain ⟨-, -, -, -, -, hbackslash⟩ := exists_of_fromRoot? hfound
      exact (eq_stampName_iff_of_whole hstamp).trans (iff_of_true hbackslash (.inl hroot))
    · have hnone := fromRoot?_eq_none_iff.mpr hroot
      rw [hnone] at hdisplay
      obtain rfl : display path = bare := hdisplay
      rw [hnone, Option.isSome_none, if_neg Bool.false_ne_true] at hstamp
      rcases Nat.lt_or_ge 2 (segments (display path)).length with hlong | hshort
      · refine iff_of_false (ne_stampName_of_cut hstamp hlong) ?_
        rintro (h | ⟨hle, -⟩)
        · exact hroot h
        · exact Nat.not_le.mpr hlong hle
      · rw [lastTwo_of_le hshort] at hstamp
        refine (eq_stampName_iff_of_whole hstamp).trans ⟨fun h => .inr ⟨hshort, h⟩, ?_⟩
        rintro (h | ⟨-, h⟩)
        · exact absurd h hroot
        · exact h

end ModulePath

namespace SourceLocation

variable {l : SourceLocation} {i : StampReading} {name : Text}

theorem namesOtherFile_eq_true_iff (hname : i.fileName = some name) :
    l.namesOtherFile i = true ↔ l.filePath.map ModulePath.withoutExtension ≠ some name := by
  rw [namesOtherFile, hname]
  exact bne_iff_ne

/-- A stamp of another file takes the raw path, and with it the link. -/
theorem withStamp_of_namesOtherFile (h : l.namesOtherFile i = true) :
    (l.withStamp i).fullPath = none ∧ (l.withStamp i).link = .ok [] := by
  have hpath : (l.withStamp i).fullPath = none := if_pos h
  refine ⟨hpath, ?_⟩
  rw [link, hpath]
  rfl

end SourceLocation

namespace FramePolicy

/-- **A stamp over a location.** Over the location of its own file a stamp keeps the raw path
exactly if the path is named alike, whatever line and column it tells. Over any location a stamp
that names another file than the path without its extension leaves no link. -/
theorem locationOf_withStamp (f : FramePolicy) {frame : Frame} {path : Text}
    (hpath : frame.filePath = some path) (hshown : ModulePath.display path ≠ [])
    (line column : Option Int) :
    ((f.locationOf frame).withStamp ⟨some (ModulePath.stampName path), line, column⟩).fullPath =
        (if ModulePath.NamedAlike path then some path else none) ∧
      ∀ (l : SourceLocation) (i : StampReading) (name : Text), i.fileName = some name →
        l.filePath.map ModulePath.withoutExtension ≠ some name →
          (l.withStamp i).fullPath = none ∧ (l.withStamp i).link = .ok [] := by
  refine ⟨?_, fun l i name hname hother =>
    SourceLocation.withStamp_of_namesOtherFile
      ((SourceLocation.namesOtherFile_eq_true_iff hname).mpr hother)⟩
  have hne : path ≠ [] := by
    rintro rfl
    exact hshown (by decide)
  have hother : (f.locationOf frame).namesOtherFile
      ⟨some (ModulePath.stampName path), line, column⟩ = true ↔ ¬ ModulePath.NamedAlike path := by
    rw [SourceLocation.namesOtherFile_eq_true_iff rfl, f.locationOf_filePath hpath hne,
      Option.map_some, Ne, Option.some_inj, ModulePath.withoutExtension_display_eq_iff hshown]
  show (if _ then none else frame.filePath) = _
  rw [hpath, if_congr hother rfl rfl, ite_not]

/-- The raw path of a file below a project root stays, that of another file goes, and a stamp alone
makes no link. -/
theorem locationOf_withStamp_rooted :
    (ModulePath.display "C:\\proj\\src\\a.ts".toList ≠ [] ∧
      (((standard .sample).locationOf
        ⟨none, some "C:\\proj\\src\\a.ts".toList, some 1, none⟩).withStamp
          ⟨some (ModulePath.stampName "C:\\proj\\src\\a.ts".toList), some 7, none⟩).fullPath =
          some "C:\\proj\\src\\a.ts".toList) ∧
    (ModulePath.display "/tmp/scripts/run.js".toList ≠ [] ∧
      (((standard .sample).locationOf
        ⟨none, some "/tmp/scripts/run.js".toList, some 1, none⟩).withStamp
          ⟨some (ModulePath.stampName "/tmp/scripts/run.js".toList), some 7, none⟩).fullPath =
          none) ∧
    (SourceLocation.empty.withStamp ⟨some "app/page".toList, some 5, none⟩).link = .ok [] := by
  have hrooted : ModulePath.display "C:\\proj\\src\\a.ts".toList ≠ [] := by decide
  have hother : ModulePath.display "/tmp/scripts/run.js".toList ≠ [] := by decide
  refine ⟨⟨hrooted, ?_⟩, ⟨hother, ?_⟩, ?_⟩
  · exact (locationOf_withStamp _ rfl hrooted _ _).1.trans (if_pos (by decide))
  · exact (locationOf_withStamp _ rfl hother _ _).1.trans (if_neg (by decide))
  · have hframe : (Frame.mk none (some "/tmp/scripts/run.js".toList) none none).filePath =
        some "/tmp/scripts/run.js".toList := rfl
    exact ((locationOf_withStamp (standard .sample) hframe hother none none).2
      .empty _ "app/page".toList rfl (by decide)).2

end FramePolicy
end SourceStamp
