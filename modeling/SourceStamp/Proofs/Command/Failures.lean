import SourceStamp.Proofs.Command.Reports

/-!
# One bad file

What cannot be stamped makes a transformation fail, and has no say in what becomes of the rest.

- `failed_runTransform_iff`: when a transformation fails.
- `SparesOthers`: how the outcome compares with that among the texts only.
- `transform_spares_others`: it compares so for all files, paths, and choices of files.
-/

namespace SourceStamp

variable {fs : FileSystem} {selection : FileSelection} {paths : List Text} {write verbose : Bool}
  {p q : Pathname} {place : List Text} {bytes : Bytes}

theorem mem_targets_iff {target : Target} :
    target ∈ targets fs selection paths ↔
      (∃ written ∈ paths, fs.has (.ofText written) = false ∧ target = .missing written) ∨
      ∃ p ∈ visits fs selection paths, target = .file p := by
  simp only [targets, visits, List.mem_flatMap]
  constructor
  · rintro ⟨written, hwritten, htarget⟩
    split at htarget
    · obtain ⟨p, hp, rfl⟩ := List.mem_map.mp htarget
      exact .inr ⟨p, ⟨written, hwritten, hp⟩, rfl⟩
    · next hhas =>
      exact .inl ⟨written, hwritten, Bool.eq_false_iff.mpr hhas, List.mem_singleton.mp htarget⟩
  · rintro (⟨written, hwritten, hhas, rfl⟩ | ⟨p, ⟨written, hwritten, hp⟩, rfl⟩)
    · exact ⟨written, hwritten, by simp [hhas]⟩
    · have hhas : fs.has (.ofText written) = true := by
        by_contra hhas
        rw [sourceFiles_eq_nil (Bool.eq_false_iff.mpr hhas)] at hp
        exact List.not_mem_nil hp
      exact ⟨written, hwritten, by simpa [hhas] using hp⟩

/-- **When a transformation fails**: a path is missing, or an accepted file is no text. -/
theorem failed_runTransform_iff (hnamed : fs.top.isNamed = true) :
    (runTransform fs verbose paths selection write).failed = true ↔
      (∃ written ∈ paths, fs.has (.ofText written) = false) ∨
      ∃ written ∈ paths, ∃ p, fs.Reaches selection (.ofText written) p ∧
        fs.holdsText p = false := by
  rw [runTransform_eq]
  dsimp only
  rw [transformReports, any_isFailure_reports (isReadable_of_mem_targets hnamed), List.any_eq_true]
  constructor
  · rintro ⟨target, htarget, hfails⟩
    rcases mem_targets_iff.mp htarget with ⟨written, hwritten, hhas, rfl⟩ | ⟨p, hp, rfl⟩
    · exact .inl ⟨written, hwritten, hhas⟩
    · obtain ⟨written, hwritten, hreaches⟩ := mem_visits_iff.mp hp
      exact .inr ⟨written, hwritten, p, hreaches, by simpa [Target.fails] using hfails⟩
  · rintro (⟨written, hwritten, hhas⟩ | ⟨written, hwritten, p, hreaches, htext⟩)
    · exact ⟨_, mem_targets_iff.mpr (.inl ⟨written, hwritten, hhas, rfl⟩), rfl⟩
    · have hp := mem_visits_iff.mpr ⟨written, hwritten, hreaches⟩
      exact ⟨_, mem_targets_iff.mpr (.inr ⟨p, hp, rfl⟩), by simp [Target.fails, htext]⟩

/-! ## Among the texts only -/

theorem visits_textsOnly (hnamed : fs.top.isNamed = true) (selection : FileSelection)
    (paths : List Text) :
    visits fs.textsOnly selection paths = (visits fs selection paths).filter fs.holdsText := by
  simp only [visits, List.filter_flatMap, FileSystem.sourceFiles_textsOnly hnamed]

/-- The targets that do not make the run fail are the visits to texts. -/
theorem targets_filter_fails (fs : FileSystem) (selection : FileSelection) (paths : List Text) :
    (targets fs selection paths).filter (!·.fails fs) =
      ((visits fs selection paths).filter fs.holdsText).map .file := by
  rw [targets, visits, List.filter_flatMap, List.filter_flatMap, List.map_flatMap]
  congr 1
  funext written
  dsimp only
  split
  · rw [List.filter_map]
    congr 1
    refine List.filter_congr fun p _ => ?_
    simp [Target.fails]
  · next hhas =>
    rw [sourceFiles_eq_nil (Bool.eq_false_iff.mpr hhas)]
    rfl

/-- A visit to a text reads among the texts only what it reads else. -/
theorem read_textsOnly_of_mem (hnamed : fs.top.isNamed = true)
    (hp : p ∈ (visits fs selection paths).filter fs.holdsText) :
    ∃ r, fs.textsOnly.read p = .ok r ∧ fs.read p = .ok r := by
  obtain ⟨hvisit, htext⟩ := List.mem_filter.mp hp
  obtain ⟨⟨place, bytes⟩, hread⟩ := canRead_of_mem_visits hnamed hvisit
  rw [FileSystem.holdsText_of_read hread] at htext
  exact ⟨_, FileSystem.read_textsOnly hread htext, hread⟩

/-- **Reports about texts**: the same in order as among the texts only. -/
theorem reports_textsOnly (hnamed : fs.top.isNamed = true) :
    (transformReports fs.textsOnly selection paths write).filter (·.isStamped) =
      (transformReports fs selection paths write).filter (·.isStamped) := by
  have hnamed' : fs.textsOnly.top.isNamed = true := FileSystem.isNamed_textsOnly hnamed
  have hall : ((visits fs selection paths).filter fs.holdsText).filter fs.textsOnly.holdsText =
      (visits fs selection paths).filter fs.holdsText := by
    refine List.filter_eq_self.mpr fun p hp => ?_
    obtain ⟨⟨place, bytes⟩, hread', hread⟩ := read_textsOnly_of_mem hnamed hp
    rw [FileSystem.holdsText_of_read hread', ← FileSystem.holdsText_of_read hread]
    exact (List.mem_filter.mp hp).2
  rw [transformReports, transformReports,
    filter_isStamped_reports (isReadable_of_mem_targets hnamed),
    filter_isStamped_reports (isReadable_of_mem_targets hnamed'), targets_filter_fails,
    targets_filter_fails, visits_textsOnly hnamed, hall]
  exact reports_congr fun p hp => read_textsOnly_of_mem hnamed hp

/-- **Contents of texts**: the same afterwards as among the texts only. -/
theorem read_runTransform_textsOnly (hnamed : fs.top.isNamed = true)
    (hq : fs.read q = .ok (place, bytes)) (htext : Encoding.isText bytes = true) :
    (runTransform fs.textsOnly verbose paths selection write).files.read q =
      (runTransform fs verbose paths selection write).files.read q := by
  have hnamed' : fs.textsOnly.top.isNamed = true := FileSystem.isNamed_textsOnly hnamed
  -- what leads to a text is not left out
  have hfilter : (visits fs.textsOnly selection paths).filter (fs.textsOnly.leadsTo place) =
      (visits fs selection paths).filter (fs.leadsTo place) := by
    rw [visits_textsOnly hnamed, List.filter_filter]
    refine List.filter_congr fun p hp => ?_
    obtain ⟨⟨found, content⟩, hp⟩ := canRead_of_mem_visits hnamed hp
    rw [FileSystem.holdsText_of_read hp, FileSystem.leadsTo_of_read hp]
    cases hcontent : Encoding.isText content with
    | true =>
      rw [FileSystem.leadsTo_of_read (FileSystem.read_textsOnly hp hcontent), Bool.and_true]
    | false =>
      rw [Bool.and_false, eq_comm, beq_eq_false_iff_ne]
      rintro rfl
      have hsame := FileSystem.contentAt?_of_read hp
      rw [FileSystem.contentAt?_of_read hq, Option.some.injEq] at hsame
      rw [hsame, hcontent] at htext
      cases htext
  rw [read_runTransform hnamed hq, read_runTransform hnamed' (FileSystem.read_textsOnly hq htext),
    hfilter]

theorem FileSystem.isFile_iff :
    fs.isFile p = true ↔ ∃ place bytes, fs.find p = .ok ⟨place, .file bytes⟩ := by
  rw [isFile, node?]
  cases hfind : fs.find p with
  | error fault => simp
  | ok d =>
    obtain ⟨place, node⟩ := d
    cases node <;> simp

theorem countP_isChange_filter (rs : List Report) :
    (rs.filter (·.isStamped)).countP (·.isChange) = rs.countP (·.isChange) := by
  rw [List.countP_filter]
  refine List.countP_congr fun r _ => ?_
  cases r <;> simp [Report.isChange, Report.isStamped]

theorem flatMap_shown_filter (t : Treatment) (rs : List Report) :
    (rs.filter (·.isStamped)).flatMap (·.shown t) = rs.flatMap (·.shown t) := by
  induction rs with
  | nil => rfl
  | cons r rest ih =>
    cases r with
    | missing written => simpa [Report.isStamped, Report.shown] using ih
    | failed p e => simpa [Report.isStamped, Report.shown] using ih
    | stamped p r notices => simpa [Report.isStamped] using ih

/-- Where a text is visited, whether the paths are a single file does not depend on what else there
is. -/
theorem isSingleFile_textsOnly (hnamed : fs.top.isNamed = true)
    (h : (visits fs selection paths).filter fs.holdsText ≠ []) :
    isSingleFile fs.textsOnly paths = isSingleFile fs paths := by
  obtain ⟨p, hp⟩ := List.exists_mem_of_ne_nil _ h
  obtain ⟨hvisit, htext⟩ := List.mem_filter.mp hp
  obtain ⟨written, hwritten, hreaches⟩ := mem_visits_iff.mp hvisit
  rcases paths with _ | ⟨path, _ | _⟩
  · rfl
  · obtain rfl : written = path := List.mem_singleton.mp hwritten
    rw [isSingleFile, isSingleFile, Bool.eq_iff_iff, FileSystem.isFile_iff, FileSystem.isFile_iff]
    constructor
    · rintro ⟨place, bytes, hfind⟩
      exact ⟨place, bytes, (FileSystem.find_textsOnly_file.mp hfind).1⟩
    · rintro ⟨place, bytes, hfind⟩
      refine ⟨place, bytes, FileSystem.find_textsOnly_file.mpr ⟨hfind, ?_⟩⟩
      -- the only file below a file is that file
      obtain ⟨names, hbelow, rfl, -⟩ := hreaches
      have hnode := FileSystem.node?_eq_some_iff.mpr ⟨place, hfind⟩
      obtain rfl : names = [] := by simpa [FileSystem.FileBelow, hnode] using hbelow
      rw [Pathname.under_nil] at htext
      rwa [FileSystem.holdsText_of_read (FileSystem.read_of_find hnamed hfind)] at htext
  · rfl

/-- **What is shown about texts**: the same as among the texts only. -/
theorem shown_textsOnly (hnamed : fs.top.isNamed = true) :
    (transformReports fs.textsOnly selection paths write).flatMap
        (·.shown (treatment fs.textsOnly paths write verbose)) =
      (transformReports fs selection paths write).flatMap
        (·.shown (treatment fs paths write verbose)) := by
  rw [← flatMap_shown_filter, ← flatMap_shown_filter _ (transformReports fs selection paths write),
    reports_textsOnly hnamed]
  by_cases h : (visits fs selection paths).filter fs.holdsText = []
  · -- nothing is shown
    rw [transformReports, filter_isStamped_reports (isReadable_of_mem_targets hnamed),
      targets_filter_fails, h]
    rfl
  · rw [treatment, treatment, isSingleFile_textsOnly hnamed h]

/-! ## The comparison -/

/-- How the outcome of a transformation compares with the outcome among the texts only, `among`. -/
structure SparesOthers (fs : FileSystem) (selection : FileSelection) (paths : List Text)
    (write verbose : Bool) (o among : Outcome) : Prop where
  /-- The status is one where a path is missing or an accepted file is no text. -/
  status_one :
    ((∃ written ∈ paths, fs.has (.ofText written) = false) ∨
      ∃ written ∈ paths, ∃ p, fs.Reaches selection (.ofText written) p ∧
        fs.holdsText p = false) → o.status = 1
  /-- Else it is zero. -/
  status_zero :
    (¬ ((∃ written ∈ paths, fs.has (.ofText written) = false) ∨
      ∃ written ∈ paths, ∃ p, fs.Reaches selection (.ofText written) p ∧
        fs.holdsText p = false)) → o.status = 0
  /-- A file keeps its bytes if they are no text, if no path reaches it, or if its text does not
  change under any pathname with which it is reached. -/
  kept : ∀ q place bytes, fs.read q = .ok (place, bytes) →
    (Encoding.isText bytes = false ∨
      (∀ written ∈ paths, ∀ p, fs.Reaches selection (.ofText written) p →
        fs.leadsTo place p = false) ∨
      ∃ source, FileSystem.textOf .utf8 bytes = .ok source ∧
        ∀ written ∈ paths, ∀ p, fs.Reaches selection (.ofText written) p →
          fs.leadsTo place p = true → (stamp .standard source (some p.text)).changed = false) →
    o.files.read q = .ok (place, bytes)
  /-- A run that does not write leaves all files as they are. -/
  dry : write = false → o.files = fs
  /-- Every text has the same content afterwards. -/
  contents : ∀ q place bytes, fs.read q = .ok (place, bytes) → Encoding.isText bytes = true →
    ∃ content, o.files.read q = .ok (place, content) ∧ among.files.read q = .ok (place, content)
  /-- Every visit to a text gives the same stamped text and the same notices. -/
  stampings :
    (transformReports fs.textsOnly selection paths write).filter (·.isStamped) =
      (transformReports fs selection paths write).filter (·.isStamped)
  /-- What goes to standard error is what the reports say. -/
  complaints : o.complaints =
    (transformReports fs selection paths write).flatMap
      (·.complaints (treatment fs paths write verbose))
  /-- What is printed is what the reports say, and a summary. It counts the accepted files below
  each path. -/
  output : o.output =
    (transformReports fs selection paths write).flatMap
        (·.shown (treatment fs paths write verbose)) ++
      Progress.summary (treatment fs paths write verbose)
        ⟨o, (paths.map fun written => {p | fs.Reaches selection (.ofText written) p}.ncard).sum,
          (transformReports fs selection paths write).countP (·.isChange)⟩
  /-- The same about the texts is printed among the texts only. -/
  output_among : among.output =
    (transformReports fs selection paths write).flatMap
        (·.shown (treatment fs paths write verbose)) ++
      Progress.summary (treatment fs.textsOnly paths write verbose)
        ⟨among, (paths.map fun written =>
            {p | fs.textsOnly.Reaches selection (.ofText written) p}.ncard).sum,
          (transformReports fs selection paths write).countP (·.isChange)⟩

/-- **One bad file** does not stop or spoil the others. -/
theorem transform_spares_others (d : InternalDirectories) (hnamed : fs.top.isNamed = true)
    (input : Bytes) (verbose : Bool) (paths : List Text) (selection : FileSelection)
    (write : Bool) :
    ∃ o among,
      (Command.transform paths selection write).run d fs input verbose = .ok o ∧
      (Command.transform paths selection write).run d fs.textsOnly input verbose = .ok among ∧
      SparesOthers fs selection paths write verbose o among := by
  have hnamed' : fs.textsOnly.top.isNamed = true := FileSystem.isNamed_textsOnly hnamed
  have hcount : ∀ fs : FileSystem,
      (transformReports fs selection paths write).countP (·.isVisit) =
        (paths.map fun written => {p | fs.Reaches selection (.ofText written) p}.ncard).sum := by
    intro fs
    rw [transformReports, countP_isVisit_reports, targets_filterMap_file?, length_visits]
  refine ⟨runTransform fs verbose paths selection write,
    runTransform fs.textsOnly verbose paths selection write, rfl, rfl, ?_⟩
  constructor
  case status_one =>
    intro h
    rw [Outcome.status, (failed_runTransform_iff hnamed).mpr h, if_pos rfl]
  case status_zero =>
    intro h
    rw [Outcome.status, if_neg fun hfailed => h ((failed_runTransform_iff hnamed).mp hfailed)]
  case kept =>
    intro q place bytes hq h
    rw [read_runTransform hnamed hq]
    cases write with
    | false => rfl
    | true =>
      rw [if_pos rfl]
      rcases h with h | h | ⟨source, hsource, h⟩
      · rw [FileSystem.stampedInTurn_of_not_isText h]
      · have hnone : (visits fs selection paths).filter (fs.leadsTo place) = [] := by
          refine List.filter_eq_nil_iff.mpr fun p hp => ?_
          obtain ⟨written, hwritten, hreaches⟩ := mem_visits_iff.mp hp
          rw [h written hwritten p hreaches]
          exact Bool.false_ne_true
        rw [hnone]
        rfl
      · rw [FileSystem.stampedInTurn_of_not_changed hsource]
        intro p hp
        obtain ⟨hvisit, hleads⟩ := List.mem_filter.mp hp
        obtain ⟨written, hwritten, hreaches⟩ := mem_visits_iff.mp hvisit
        exact h written hwritten p hreaches hleads
  case dry =>
    rintro rfl
    rw [runTransform_eq]
    exact FileSystem.visitedAll_dry ..
  case contents =>
    intro q place bytes hq htext
    refine ⟨_, read_runTransform hnamed hq, ?_⟩
    rw [read_runTransform_textsOnly hnamed hq htext, read_runTransform hnamed hq]
  case stampings => exact reports_textsOnly hnamed
  case complaints => rw [runTransform_eq]
  case output =>
    rw [← hcount fs, runTransform_eq]
    rfl
  case output_among =>
    have hchanged : (transformReports fs.textsOnly selection paths write).countP (·.isChange) =
        (transformReports fs selection paths write).countP (·.isChange) := by
      rw [← countP_isChange_filter, reports_textsOnly hnamed, countP_isChange_filter]
    rw [← hcount fs.textsOnly, ← hchanged, ← shown_textsOnly hnamed, runTransform_eq]
    rfl

/-- A file that is no text beside one that is. -/
theorem transform_spares_other_file :
    ∃ o,
      (Command.transform [".".toList] .standard true).run .sample
        (((FileSystem.empty []).putFile ["a.ts".toList] (Encoding.utf8Bytes "f()".toList)).putFile
          ["b.ts".toList] [0xFF]) [] false = .ok o ∧
      o.status = 1 ∧
      o.files.read (.ofText "b.ts".toList) = .ok (["b.ts".toList], [0xFF]) := by
  obtain ⟨o, among, hrun, -, hspares⟩ := @transform_spares_others
    (((FileSystem.empty []).putFile ["a.ts".toList] (Encoding.utf8Bytes "f()".toList)).putFile
      ["b.ts".toList] [0xFF]) .sample (by decide +kernel) [] false [".".toList] .standard true
  refine ⟨o, hrun, hspares.status_one (.inr ⟨_, List.mem_singleton_self _,
    .ofText "b.ts".toList, ⟨["b.ts".toList], ⟨_, rfl⟩, rfl, by decide +kernel, by decide +kernel⟩,
    by decide +kernel⟩), hspares.kept _ _ _ ?_ (.inl (by decide +kernel))⟩
  exact FileSystem.read_eq_ok_iff.mpr ⟨by decide +kernel, rfl⟩

/-- A directory that an excluding pattern prunes hides a file that the choice of files accepts, so
the run does not fail at it. -/
theorem transform_overlooks_pruned :
    ∃ o,
      (Command.transform [".".toList]
        (.ofPatterns (some FileSelection.scripts) (Pattern.parse? "d/$".toList)) false).run .sample
          ((FileSystem.empty []).putFile ["d".toList, "b.ts".toList] [0xFF]) [] false = .ok o ∧
      o.status = 0 ∧
      ((FileSystem.empty []).putFile ["d".toList, "b.ts".toList] [0xFF]).FileBelow
        (.ofText ".".toList) ["d".toList, "b.ts".toList] ∧
      FileSelection.accepts (.ofPatterns (some FileSelection.scripts) (Pattern.parse? "d/$".toList))
        "d/b.ts".toList = true ∧
      ((FileSystem.empty []).putFile ["d".toList, "b.ts".toList] [0xFF]).holdsText
        (.ofText "d/b.ts".toList) = false := by
  exact ⟨_, rfl, by decide +kernel, ⟨_, rfl, _, rfl⟩, by decide +kernel, by decide +kernel⟩

end SourceStamp
