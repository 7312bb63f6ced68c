import SourceStamp.Proofs.Command.Reports
import SourceStamp.Proofs.Files.Pruning

/-!
# How often a file is stamped

A transformation that writes stamps a file once for each path that has it at or below it, each time
with the pathname that the walk from that path gives it.

- `visits_filter_leadsTo`: the visits to a file.
- `transform_passes`: what a file holds after a run that stamps the usual files.
- `transform_stamps_twice`: a path that is given twice has its file stamped twice.
-/

namespace SourceStamp

variable {fs : FileSystem} {selection : FileSelection} {place : List Text} {bytes : Bytes}
  {t : Text}

/-- **Visits to a file**: one for each path from which a walk comes to it, in the order of the
paths. -/
theorem visits_filter_leadsTo (hnamed : fs.top.isNamed = true) (hfile : fs.top.HasFile place)
    (paths : List Text) :
    (visits fs selection paths).filter (fs.leadsTo place) =
      paths.filterMap fun written => fs.approach? selection place (.ofText written) := by
  rw [visits, List.filter_flatMap, List.filterMap_eq_flatMap_toList]
  congr 1
  funext written
  exact FileSystem.sourceFiles_filter_leadsTo hnamed hfile

/-- **Passes over a file**: a run that writes stamps a file without carriage returns, if it is
accepted and a text, once for each path from which a walk comes to it. A file to which a walk comes
from one path alone holds its text stamped with its pathname. -/
theorem transform_passes (d : InternalDirectories) (hnamed : fs.top.isNamed = true)
    (input : Bytes) (verbose : Bool) {before after : List Text} {written : Text} {names : List Text}
    (hbelow : fs.FileBelow (.ofText written) names)
    (haccepts : FileSelection.standard.accepts
      ((Pathname.ofText written).under names).text = true)
    (hread : fs.read ((Pathname.ofText written).under names) = .ok (place, bytes))
    (htext : Encoding.utf8.decode bytes = .ok t) (hreturn : '\r' ∉ t) :
    ∃ o content,
      (Command.transform (before ++ written :: after) .standard true).run d fs input verbose =
        .ok o ∧
      o.files.read ((Pathname.ofText written).under names) = .ok (place, content) ∧
      Encoding.utf8.decode content = .ok (FileSystem.stampedWith .standard
        (before.filterMap (fun other => fs.approach? .standard place (.ofText other)) ++
          (Pathname.ofText written).under names ::
          after.filterMap fun other => fs.approach? .standard place (.ofText other)) t) ∧
      ((∀ other ∈ before ++ after, ∀ p, fs.Reaches .standard (.ofText other) p →
          fs.leadsTo place p = false) →
        Encoding.utf8.decode content =
          .ok (stamp .standard t (some ((Pathname.ofText written).under names).text)).text) := by
  have hfile : fs.top.HasFile place :=
    Listing.hasFile_iff_contentAt?.mpr ⟨bytes, FileSystem.contentAt?_of_read hread⟩
  have hhere : fs.approach? .standard place (.ofText written) =
      some ((Pathname.ofText written).under names) := by
    rw [FileSystem.approach?_eq_some_iff hnamed hfile]
    have henters := FileSelection.enters_of_accepts (FileSelection.isLocal_standard _) haccepts
    exact ⟨⟨names, hbelow, rfl, henters, haccepts⟩, FileSystem.leadsTo_iff.mpr ⟨bytes, hread⟩⟩
  have hvisits : (visits fs .standard (before ++ written :: after)).filter (fs.leadsTo place) =
      before.filterMap (fun other => fs.approach? .standard place (.ofText other)) ++
        (Pathname.ofText written).under names ::
        after.filterMap fun other => fs.approach? .standard place (.ofText other) := by
    rw [visits_filter_leadsTo hnamed hfile, List.filterMap_append, List.filterMap_cons, hhere]
  refine ⟨_, _, rfl, read_runTransform hnamed hread, ?_, ?_⟩
  · rw [if_pos rfl, FileSystem.decode_stampedInTurn htext hreturn, hvisits]
  · intro halone
    have hnone : ∀ others : List Text, (∀ other ∈ others, other ∈ before ++ after) →
        others.filterMap (fun other => fs.approach? .standard place (.ofText other)) = [] := by
      refine fun others hothers => List.filterMap_eq_nil_iff.mpr fun other hother => ?_
      refine Option.eq_none_iff_forall_ne_some.mpr fun p hp => ?_
      obtain ⟨hreaches, hleads⟩ := (FileSystem.approach?_eq_some_iff hnamed hfile).mp hp
      rw [halone other (hothers other hother) p hreaches] at hleads
      cases hleads
    rw [if_pos rfl, FileSystem.decode_stampedInTurn htext hreturn, hvisits,
      hnone before fun _ => List.mem_append_left _, hnone after fun _ => List.mem_append_right _]
    rfl

/-- A file below a directory, with another one beside it that is not accepted. -/
theorem transform_passes_once :
    ∃ o content,
      (Command.transform [".".toList] .standard true).run .sample
        (((FileSystem.empty []).putFile ["a.ts".toList]
          (Encoding.utf8Bytes "useLogger()".toList)).putFile ["a.css".toList] []) [] false =
            .ok o ∧
      o.files.read (.ofText "a.ts".toList) = .ok (["a.ts".toList], content) ∧
      Encoding.utf8.decode content =
        .ok (stamp .standard "useLogger()".toList (some "a.ts".toList)).text := by
  obtain ⟨o, content, hrun, hread, -, hcontent⟩ := @transform_passes
    (((FileSystem.empty []).putFile ["a.ts".toList]
      (Encoding.utf8Bytes "useLogger()".toList)).putFile ["a.css".toList] [])
    ["a.ts".toList] (Encoding.utf8Bytes "useLogger()".toList) "useLogger()".toList
    .sample (by decide +kernel) [] false [] [] ".".toList ["a.ts".toList] ⟨_, rfl⟩
    (by decide +kernel) (FileSystem.read_eq_ok_iff.mpr ⟨by decide +kernel, rfl⟩)
    (Encoding.decode_utf8Bytes _) (by decide)
  exact ⟨o, content, hrun, hread, hcontent (by simp)⟩

/-- **A path that is given twice**: its file is stamped twice, and the second pass changes what the
first one wrote. -/
theorem transform_stamps_twice :
    ∃ o content,
      (Command.transform ["a.ts".toList, "a.ts".toList] .standard true).run .sample
        ((FileSystem.empty []).putFile ["a.ts".toList]
          (Encoding.utf8Bytes "useLogger()".toList)) [] false = .ok o ∧
      FileSelection.standard.accepts "a.ts".toList = true ∧
      o.files.read (.ofText "a.ts".toList) = .ok (["a.ts".toList], content) ∧
      Encoding.utf8.decode content ≠
        .ok (stamp .standard "useLogger()".toList (some "a.ts".toList)).text := by
  have hread : ((FileSystem.empty []).putFile ["a.ts".toList]
      (Encoding.utf8Bytes "useLogger()".toList)).read (.ofText "a.ts".toList) =
        .ok (["a.ts".toList], Encoding.utf8Bytes "useLogger()".toList) :=
    FileSystem.read_eq_ok_iff.mpr ⟨by decide +kernel, rfl⟩
  have hvisits : (visits ((FileSystem.empty []).putFile ["a.ts".toList]
      (Encoding.utf8Bytes "useLogger()".toList)) .standard ["a.ts".toList, "a.ts".toList]).filter
        (((FileSystem.empty []).putFile ["a.ts".toList]
          (Encoding.utf8Bytes "useLogger()".toList)).leadsTo ["a.ts".toList]) =
          [.ofText "a.ts".toList, .ofText "a.ts".toList] := by
    decide +kernel
  refine ⟨_, _, rfl, by decide +kernel, read_runTransform (by decide +kernel) hread, ?_⟩
  rw [if_pos rfl, FileSystem.decode_stampedInTurn (Encoding.decode_utf8Bytes _) (by decide),
    hvisits]
  have hplan : plan .standard "useLogger()".toList (some "a.ts".toList) =
      [.insert 10 (Stamp.object "a".toList 1)] := by
    simp only [plan_eq, MonitoredCall.findAll_eq, Occurrence.isCall, classify_eq,
      MonitoredCall.edit?, ArgumentList.find, Scanner.closingParen_eq, Scanner.visits_eq,
      Stamp.editFor, ArgumentList.layout, ArgumentLayout.ofText, occurrences,
      MonitoredNames.callees, MonitoredNames.longestFirst_eq]
    decide +kernel
  have hfirst : (stamp .standard "useLogger()".toList (some "a.ts".toList)).text =
      "useLogger(\x7b __source: \x7b fileName: \"a\", lineNumber: 1 \x7d \x7d)".toList := by
    rw [stamp, hplan, if_neg (by decide +kernel), Edit.applyAll_eq, Edit.ordered,
      List.mergeSort_singleton]
    decide +kernel
  have hagain : plan .standard
      "useLogger(\x7b __source: \x7b fileName: \"a\", lineNumber: 1 \x7d \x7d)".toList
        (some "a.ts".toList) =
          [.insert 54 (Stamp.separator false ++ Stamp.property "a".toList 1)] := by
    simp only [plan_eq, MonitoredCall.findAll_eq, Occurrence.isCall, classify_eq,
      MonitoredCall.edit?, ArgumentList.find, Scanner.closingParen_eq, Scanner.visits_eq,
      Stamp.editFor, ArgumentList.layout, ArgumentLayout.ofText, occurrences,
      MonitoredNames.callees, MonitoredNames.longestFirst_eq]
    decide +kernel
  intro hsame
  have htwice : (stamp .standard (stamp .standard "useLogger()".toList (some "a.ts".toList)).text
      (some "a.ts".toList)).text =
        (stamp .standard "useLogger()".toList (some "a.ts".toList)).text := Except.ok.inj hsame
  rw [hfirst, stamp, hagain, if_neg (by decide +kernel), Edit.applyAll_eq, Edit.ordered,
    List.mergeSort_singleton] at htwice
  exact absurd htwice (by decide +kernel)

end SourceStamp
