import SourceStamp.Command.Run
import SourceStamp.Proofs.Files.Contents

/-!
# What a transformation reports

A transformation goes through its targets one after the other. What it prints, its status and its
counts are those of the reports about the targets put together.

- `Report`: what there is to say about a target.
- `reports`: the reports of a transformation, each about the files as they are when the target is
  reached.
- `runTransform_eq`: the outcome of a transformation in terms of its reports.
- `read_runTransform`: what a file holds afterwards.
-/

namespace SourceStamp

/-- What becomes of a target. -/
inductive Report where
  /-- Nothing is at the path, which is written so. -/
  | missing (written : Text)
  /-- The file could not be stamped. -/
  | failed (p : Pathname) (e : FileError)
  /-- The file was stamped. -/
  | stamped (p : Pathname) (r : Stamping) (notices : List Notice)
  deriving DecidableEq, Repr

namespace Report

/-- What goes to standard output. -/
def shown (t : Treatment) : Report → Text
  | stamped p r _ => Progress.shownOf t p r
  | _ => []

/-- What goes to standard error. -/
def complaints (t : Treatment) : Report → Text
  | missing written => complaint written "no such file or directory".toList
  | failed p e => complaint p.text e.message
  | stamped _ _ notices => if t.verbose then noticeLines notices else []

/-- Whether the run fails. -/
def isFailure : Report → Bool
  | stamped .. => false
  | _ => true

/-- Whether a file was visited. -/
def isVisit : Report → Bool
  | missing _ => false
  | _ => true

/-- Whether a file was stamped. -/
def isStamped : Report → Bool
  | stamped .. => true
  | _ => false

/-- Whether a file was changed. -/
def isChange : Report → Bool
  | stamped _ r _ => r.changed
  | _ => false

end Report

namespace Target

/-- The report about a target. -/
def report (names : MonitoredNames) (write : Bool) (fs : FileSystem) : Target → Report
  | missing written => .missing written
  | file p =>
    match fs.stampFile names .utf8 write p with
    | .error e => .failed p e
    | .ok done => .stamped p done.stamping done.notices

/-- The file of a target. -/
def file? : Target → Option Pathname
  | missing _ => none
  | file p => some p

/-- The files after a target. -/
def filesAfter (names : MonitoredNames) (write : Bool) (fs : FileSystem) (target : Target) :
    FileSystem :=
  fs.visitedAll names write target.file?.toList

end Target

/-- The reports about targets that are gone through in order. -/
def reports (names : MonitoredNames) (write : Bool) : FileSystem → List Target → List Report
  | _, [] => []
  | fs, target :: rest =>
    target.report names write fs :: reports names write (target.filesAfter names write fs) rest

namespace Progress

variable {names : MonitoredNames} {t : Treatment}

/-- A transformation after one more report. -/
def add (t : Treatment) (s : Progress) (r : Report) (files : FileSystem) : Progress where
  outcome :=
    ⟨s.outcome.output ++ r.shown t, s.outcome.complaints ++ r.complaints t,
      s.outcome.failed || r.isFailure, files⟩
  visited := s.visited + (if r.isVisit then 1 else 0)
  changed := s.changed + (if r.isChange then 1 else 0)

theorem step_eq (s : Progress) (target : Target) :
    s.step names t target =
      s.add t (target.report names t.write s.outcome.files)
        (target.filesAfter names t.write s.outcome.files) := by
  cases target with
  | missing written =>
    simp [step, fail, add, Target.report, Target.filesAfter, Target.file?, Report.shown,
      Report.complaints, Report.isFailure, Report.isVisit, Report.isChange, FileSystem.visitedAll]
  | file p =>
    rw [step, visit]
    simp only [Target.report, Target.filesAfter, Target.file?, Option.toList_some,
      FileSystem.visitedAll, List.foldl_cons, List.foldl_nil, FileSystem.visited]
    cases s.outcome.files.stampFile names .utf8 t.write p with
    | error e =>
      simp [fail, add, Report.shown, Report.complaints, Report.isFailure, Report.isVisit,
        Report.isChange]
    | ok done =>
      cases hchanged : done.stamping.changed <;>
        simp [add, Report.shown, Report.complaints, Report.isFailure, Report.isVisit,
          Report.isChange, hchanged]

theorem visitedAll_filterMap_cons (names : MonitoredNames) (write : Bool) (fs : FileSystem)
    (target : Target) (rest : List Target) :
    fs.visitedAll names write ((target :: rest).filterMap (·.file?)) =
      (target.filesAfter names write fs).visitedAll names write (rest.filterMap (·.file?)) := by
  cases target <;> rfl

/-- **A run**: after some targets there is the sum of their reports. -/
theorem foldl_step_eq (s : Progress) (targets : List Target) :
    targets.foldl (step names t) s =
      let rs := reports names t.write s.outcome.files targets
      { outcome :=
          ⟨s.outcome.output ++ rs.flatMap (·.shown t),
            s.outcome.complaints ++ rs.flatMap (·.complaints t),
            s.outcome.failed || rs.any (·.isFailure),
            s.outcome.files.visitedAll names t.write (targets.filterMap (·.file?))⟩
        visited := s.visited + rs.countP (·.isVisit)
        changed := s.changed + rs.countP (·.isChange) } := by
  induction targets generalizing s with
  | nil => simp [reports, FileSystem.visitedAll]
  | cons target rest ih =>
    rw [List.foldl_cons, ih, step_eq]
    simp only [add, reports, visitedAll_filterMap_cons, List.flatMap_cons, List.any_cons,
      List.countP_cons, List.append_assoc, Bool.or_assoc, Nat.add_assoc,
      Nat.add_comm (List.countP _ _)]

end Progress

/-! ## Visits and failures -/

section Reports

variable {names : MonitoredNames} {write : Bool} {fs : FileSystem} {p : Pathname}

theorem Report.isStamped_eq (r : Report) : r.isStamped = !r.isFailure := by
  cases r <;> rfl

/-- A target is missing, or a file that can be read. -/
def Target.IsReadable (fs : FileSystem) (target : Target) : Prop :=
  ∀ p ∈ target.file?, fs.CanRead p

/-- Whether a target makes the run fail. -/
def Target.fails (fs : FileSystem) : Target → Bool
  | missing _ => true
  | file p => !fs.holdsText p

theorem isFailure_report {target : Target} (h : target.IsReadable fs) :
    (target.report names write fs).isFailure = target.fails fs := by
  cases target with
  | missing written => rfl
  | file p =>
    obtain ⟨⟨place, bytes⟩, hp⟩ := h p rfl
    rw [Target.report, Target.fails, FileSystem.holdsText_of_read hp]
    cases htext : Encoding.isText bytes with
    | false =>
      obtain ⟨e, he⟩ := FileSystem.exists_textOf_error htext
      rw [FileSystem.stampFile_of_error hp he]
      rfl
    | true =>
      obtain ⟨source, hsource⟩ := FileSystem.exists_textOf htext
      rw [FileSystem.stampFile_of_text hp hsource]
      rfl

theorem isVisit_report (target : Target) :
    (target.report names write fs).isVisit = target.file?.isSome := by
  cases target with
  | missing written => rfl
  | file p =>
    rw [Target.report]
    cases fs.stampFile names .utf8 write p <;> rfl

/-- There is a report for each visit. -/
theorem countP_isVisit_reports (names : MonitoredNames) (write : Bool) (fs : FileSystem)
    (targets : List Target) :
    (reports names write fs targets).countP (·.isVisit) =
      (targets.filterMap (·.file?)).length := by
  induction targets generalizing fs with
  | nil => rfl
  | cons target rest ih =>
    rw [reports, List.countP_cons, ih, isVisit_report]
    cases target <;> rfl

theorem isReadable_filesAfter {target other : Target} (h : target.IsReadable fs)
    (hother : other.IsReadable fs) :
    other.IsReadable (target.filesAfter names write fs) := by
  intro p hp
  cases target with
  | missing written => exact hother p hp
  | file q => exact FileSystem.canRead_visited (h q rfl) (hother p hp)

theorem forall_isReadable_filesAfter {target : Target} {rest : List Target}
    (h : target.IsReadable fs) (hrest : ∀ other ∈ rest, other.IsReadable fs) :
    ∀ other ∈ rest, other.IsReadable (target.filesAfter names write fs) :=
  fun other hother => isReadable_filesAfter h (hrest other hother)

theorem fails_filesAfter {target other : Target} (h : target.IsReadable fs)
    (hother : other.IsReadable fs) :
    other.fails (target.filesAfter names write fs) = other.fails fs := by
  cases other with
  | missing written => rfl
  | file p =>
    cases target with
    | missing written => rfl
    | file q =>
      exact congrArg (!·) (FileSystem.holdsText_visited (h q rfl) (hother p rfl))

/-- **Failures**: a run fails exactly at what is missing or no text from the start. -/
theorem any_isFailure_reports {targets : List Target}
    (h : ∀ target ∈ targets, target.IsReadable fs) :
    (reports names write fs targets).any (·.isFailure) = targets.any (·.fails fs) := by
  induction targets generalizing fs with
  | nil => rfl
  | cons target rest ih =>
    obtain ⟨htarget, hrest⟩ := List.forall_mem_cons.mp h
    rw [reports, List.any_cons, List.any_cons, ih (forall_isReadable_filesAfter htarget hrest),
      isFailure_report htarget]
    refine congrArg (target.fails fs || ·) (Bool.eq_iff_iff.mpr ?_)
    rw [List.any_eq_true, List.any_eq_true]
    refine exists_congr fun other => and_congr_right fun hother => ?_
    rw [fails_filesAfter htarget (hrest other hother)]

/-- What fails has no part in the reports about the other targets. -/
theorem filter_isStamped_reports {targets : List Target}
    (h : ∀ target ∈ targets, target.IsReadable fs) :
    (reports names write fs targets).filter (·.isStamped) =
      reports names write fs (targets.filter (!·.fails fs)) := by
  induction targets generalizing fs with
  | nil => rfl
  | cons target rest ih =>
    obtain ⟨htarget, hrest⟩ := List.forall_mem_cons.mp h
    have hfilter : rest.filter (!·.fails (target.filesAfter names write fs)) =
        rest.filter (!·.fails fs) :=
      List.filter_congr fun other hother =>
        congrArg (!·) (fails_filesAfter htarget (hrest other hother))
    rw [reports, List.filter_cons, List.filter_cons,
      ih (forall_isReadable_filesAfter htarget hrest), hfilter, Report.isStamped_eq,
      isFailure_report htarget]
    cases hfails : target.fails fs with
    | true =>
      -- what fails leaves the files as they are
      have hsame : target.filesAfter names write fs = fs := by
        cases target with
        | missing written => rfl
        | file p =>
          exact FileSystem.visited_of_not_holdsText (htarget p rfl)
            (by simpa [Target.fails] using hfails)
      simp [hsame]
    | false => simp [reports]

theorem report_congr {fs' : FileSystem} {r : List Text × Bytes} (hp : fs.read p = .ok r)
    (hp' : fs'.read p = .ok r) :
    (Target.file p).report names write fs = (Target.file p).report names write fs' := by
  obtain ⟨place, bytes⟩ := r
  rw [Target.report, Target.report]
  cases htext : Encoding.isText bytes with
  | false =>
    obtain ⟨e, he⟩ := FileSystem.exists_textOf_error htext
    rw [FileSystem.stampFile_of_error hp he, FileSystem.stampFile_of_error hp' he]
  | true =>
    obtain ⟨source, hsource⟩ := FileSystem.exists_textOf htext
    rw [FileSystem.stampFile_of_text hp hsource, FileSystem.stampFile_of_text hp' hsource]
    dsimp only
    split <;> rfl

/-- File systems in which some pathnames lead to the same contents give the same reports about them.
-/
theorem reports_congr {fs' : FileSystem} {ps : List Pathname}
    (h : ∀ p ∈ ps, ∃ r, fs.read p = .ok r ∧ fs'.read p = .ok r) :
    reports names write fs (ps.map .file) = reports names write fs' (ps.map .file) := by
  induction ps generalizing fs fs' with
  | nil => rfl
  | cons p ps ih =>
    obtain ⟨⟨r, hp, hp'⟩, hps⟩ := List.forall_mem_cons.mp h
    rw [List.map_cons, reports, reports, report_congr hp hp']
    refine congrArg (_ :: ·) (ih fun q hq => ?_)
    obtain ⟨r', hq, hq'⟩ := hps q hq
    exact FileSystem.read_visited_congr hp hp' hq hq'

end Reports

variable {fs : FileSystem} {selection : FileSelection} {paths : List Text} {write verbose : Bool}
  {p q : Pathname} {place : List Text} {bytes : Bytes}

/-- How a transformation treats its files: a single file that is not written back is shown. -/
def treatment (fs : FileSystem) (paths : List Text) (write verbose : Bool) : Treatment :=
  ⟨write, isSingleFile fs paths && !write, verbose⟩

/-- The reports of a transformation. -/
def transformReports (fs : FileSystem) (selection : FileSelection) (paths : List Text)
    (write : Bool) : List Report :=
  reports .standard write fs (targets fs selection paths)

/-- The files that a transformation visits, in order. -/
def visits (fs : FileSystem) (selection : FileSelection) (paths : List Text) : List Pathname :=
  paths.flatMap fun written => fs.sourceFiles selection (.ofText written)

/-- A pathname that leads nowhere has no files below it. -/
theorem sourceFiles_eq_nil (h : fs.has p = false) :
    fs.sourceFiles selection p = [] := by
  rw [FileSystem.has, Option.isSome_eq_false_iff, Option.isNone_iff_eq_none] at h
  rw [FileSystem.sourceFiles, h]

theorem targets_filterMap_file? :
    (targets fs selection paths).filterMap (·.file?) = visits fs selection paths := by
  rw [targets, visits, List.filterMap_flatMap]
  congr 1
  funext written
  dsimp only
  split
  · rw [List.filterMap_map]
    exact List.filterMap_some
  · next h => rw [sourceFiles_eq_nil (Bool.eq_false_iff.mpr h)]; rfl

/-- **The outcome of a transformation** is what its reports say. -/
theorem runTransform_eq (fs : FileSystem) (verbose : Bool) (paths : List Text)
    (selection : FileSelection) (write : Bool) :
    runTransform fs verbose paths selection write =
      let t := treatment fs paths write verbose
      let rs := transformReports fs selection paths write
      let files := fs.visitedAll .standard write (visits fs selection paths)
      let outcome : Outcome :=
        ⟨rs.flatMap (·.shown t), rs.flatMap (·.complaints t), rs.any (·.isFailure), files⟩
      { outcome with
        output := outcome.output ++
          Progress.summary t
            ⟨outcome, rs.countP (·.isVisit), rs.countP (·.isChange)⟩ } := by
  rw [runTransform]
  simp only [Progress.foldl_step_eq, Progress.finish, Progress.start, treatment, transformReports,
    targets_filterMap_file?, List.nil_append, Bool.false_or, Nat.zero_add]

/-! ## Visits -/

theorem mem_visits_iff :
    p ∈ visits fs selection paths ↔
      ∃ written ∈ paths, fs.Reaches selection (.ofText written) p := by
  simp only [visits, List.mem_flatMap, FileSystem.mem_sourceFiles_iff]

theorem canRead_of_mem_visits (hnamed : fs.top.isNamed = true)
    (h : p ∈ visits fs selection paths) : fs.CanRead p := by
  obtain ⟨written, -, hreaches⟩ := mem_visits_iff.mp h
  obtain ⟨place, bytes, hread⟩ := hreaches.read hnamed
  exact ⟨_, hread⟩

theorem isReadable_of_mem_targets (hnamed : fs.top.isNamed = true) :
    ∀ target ∈ targets fs selection paths, target.IsReadable fs := by
  intro target htarget p hp
  have hvisits : p ∈ visits fs selection paths := by
    rw [← targets_filterMap_file?]
    exact List.mem_filterMap.mpr ⟨target, htarget, hp⟩
  exact canRead_of_mem_visits hnamed hvisits

/-- **Targets under way**: what the paths lead to is the same at any moment of a run, so a run may
look for its targets one path at a time as well as all at the start. -/
theorem targets_visitedAll {ps : List Pathname} (hnamed : fs.top.isNamed = true)
    (hps : ∀ p ∈ ps, p ∈ visits fs selection paths) (names : MonitoredNames) (write : Bool) :
    targets (fs.visitedAll names write ps) selection paths = targets fs selection paths := by
  have hread : ∀ p ∈ ps, fs.CanRead p := fun p hp =>
    canRead_of_mem_visits hnamed (hps p hp)
  rw [targets, targets]
  congr 1
  funext written
  dsimp only
  rw [FileSystem.has_visitedAll hread, FileSystem.sourceFiles_visitedAll hnamed hread]

/-- There are as many visits as there are accepted files below the paths. -/
theorem length_visits :
    (visits fs selection paths).length =
      (paths.map fun written => {p | fs.Reaches selection (.ofText written) p}.ncard).sum := by
  simp only [visits, List.length_flatMap, FileSystem.length_sourceFiles]

/-- **What a file holds** after a transformation. -/
theorem read_runTransform (hnamed : fs.top.isNamed = true) (hq : fs.read q = .ok (place, bytes)) :
    (runTransform fs verbose paths selection write).files.read q =
      .ok (place, if write then FileSystem.stampedInTurn .standard
        ((visits fs selection paths).filter (fs.leadsTo place)) bytes else bytes) := by
  rw [runTransform_eq]
  cases write with
  | false =>
    dsimp only
    rw [FileSystem.visitedAll_dry, hq]
    rfl
  | true =>
    exact FileSystem.read_visitedAll (fun p hp => canRead_of_mem_visits hnamed hp) hq

end SourceStamp
