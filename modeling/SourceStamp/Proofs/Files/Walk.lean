import Mathlib.Data.List.Nodup
import Mathlib.Data.Set.Card
import SourceStamp.Files.Walk
import SourceStamp.Proofs.Files.Descent
import SourceStamp.Proofs.Text.Order

/-!
# What a walk visits

A walk decides about a directory before it sees what lies below it. What it visits is described here
file by file.

- `Pathname.under`: the pathname that names lead to.
- `FileSelection.enters`: no directory on the way to a file is pruned.
- `Listing.mem_walk_iff`, `Listing.walk_pairwise`: a walk visits the accepted files below it whose
  directories are entered, in order, and nothing else.
- `FileSystem.Reaches`, `FileSystem.mem_sourceFiles_iff`: the same from the pathname on at which
  the walk starts.
-/

namespace SourceStamp

namespace Pathname

/-- The pathname that names lead to from another one on. -/
def under (p : Pathname) (names : List Text) : Pathname := { p with parts := p.parts ++ names }

@[simp] theorem under_nil (p : Pathname) : p.under [] = p := by
  simp [under]

theorem under_cons (p : Pathname) (name : Text) (names : List Text) :
    p.under (name :: names) = (p.child name).under names := by
  simp [under, child]

theorem under_injective {p : Pathname} {names names' : List Text}
    (h : p.under names = p.under names') : names = names' :=
  List.append_cancel_left (congrArg parts h)

end Pathname

namespace FileSelection

/-- Whether a walk from a directory gets to an entry at `names` below it: no directory on the way is
pruned. -/
def enters (selection : FileSelection) (directory : Pathname) : List Text → Bool
  | [] | [_] => true
  | name :: rest =>
    !selection.prunes (directory.child name).text && selection.enters (directory.child name) rest

theorem enters_cons {selection : FileSelection} {directory : Pathname} {name : Text}
    {rest : List Text} (h : rest ≠ []) :
    selection.enters directory (name :: rest) = true ↔
      selection.prunes (directory.child name).text = false ∧
        selection.enters (directory.child name) rest = true := by
  obtain ⟨part, rest, rfl⟩ := List.exists_cons_of_ne_nil h
  simp [enters]

end FileSelection

/-! ## The order of a walk -/

theorem sortedByName_pairwise {α : Type} (named : List (Text × α)) :
    (sortedByName named).Pairwise fun a b => Text.isAtMost a.1 b.1 = true :=
  @List.pairwise_mergeSort (Text × α) (fun a b => Text.isAtMost a.1 b.1)
    (fun _ _ _ => Text.isAtMost_trans) (fun a b => Text.isAtMost_total a.1 b.1) named

/-- The order in which a walk comes to the files below a directory: first to those of the directory
itself, by name, then to those below its directories, by the names of the directories. -/
inductive ComesBefore : List Text → List Text → Prop
  /-- Two files of the directory. -/
  | files {a b : Text} (h : Text.Before a b) : ComesBefore [a] [b]
  /-- A file of the directory, and one below it. -/
  | fileFirst (a b : Text) {rest : List Text} (h : rest ≠ []) : ComesBefore [a] (b :: rest)
  /-- Files below two directories. -/
  | folders {a b : Text} {rest rest' : List Text} (h : Text.Before a b) (hrest : rest ≠ [])
      (hrest' : rest' ≠ []) : ComesBefore (a :: rest) (b :: rest')
  /-- Two files below one directory. -/
  | inFolder (a : Text) {rest rest' : List Text} (h : ComesBefore rest rest') :
      ComesBefore (a :: rest) (a :: rest')

theorem ComesBefore.asymm {names names' : List Text} (h : ComesBefore names names') :
    ¬ ComesBefore names' names := by
  induction h with
  | files h =>
    rintro (h' | ⟨_, _, h'⟩ | ⟨_, h', _⟩ | ⟨_, h'⟩)
    · exact h.asymm h'
    · exact h' rfl
    · exact h' rfl
    · cases h'
  | fileFirst a b h =>
    rintro (_ | _ | ⟨_, _, h'⟩ | ⟨_, h'⟩)
    · exact h rfl
    · exact h rfl
    · exact h' rfl
    · cases h'
  | folders h hrest hrest' =>
    rintro (_ | _ | ⟨h', _, _⟩ | _)
    · exact hrest rfl
    · exact hrest' rfl
    · exact h.asymm h'
    · exact h.2 rfl
  | inFolder a h ih =>
    rintro (h' | ⟨_, _, h'⟩ | ⟨h', _, _⟩ | ⟨_, h'⟩)
    · exact h'.2 rfl
    · cases h
    · exact h'.2 rfl
    · exact ih h'

/-- The order of a walk on pathnames. -/
def Precedes (directory p q : Pathname) : Prop :=
  ∃ names names', p = directory.under names ∧ q = directory.under names' ∧
    ComesBefore names names'

theorem Precedes.asymm {directory p q : Pathname} (h : Precedes directory p q) :
    ¬ Precedes directory q p := by
  rintro ⟨names', names, rfl, rfl, h'⟩
  obtain ⟨m, m', hm, hm', h⟩ := h
  rw [← Pathname.under_injective hm, ← Pathname.under_injective hm'] at h
  exact h.asymm h'

namespace Listing

/-! ## Entries of distinct names -/

theorem mem_names_of_get? {l : Listing} {name : Text} {node : FileNode}
    (h : l.get? name = some node) : name ∈ l.names := by
  induction l with
  | nil => cases h
  | file m bytes rest ih => grind [get?, names]
  | folder m entries rest _ ih => grind [get?, names]

theorem sizeOf_lt_of_get? {l below : Listing} {name : Text}
    (h : l.get? name = some (.folder below)) : sizeOf below < sizeOf l := by
  induction l with
  | nil => cases h
  | file m bytes rest ih =>
    rw [get?] at h
    split at h
    · cases h
    · have := ih h
      simp only [file.sizeOf_spec]
      omega
  | folder m entries rest _ ih =>
    rw [get?] at h
    split at h
    · cases h
      simp only [folder.sizeOf_spec]
      omega
    · have := ih h
      simp only [folder.sizeOf_spec]
      omega

/-- Induction from the directories below a directory to the directory. -/
theorem induction_below {motive : Listing → Prop}
    (step : ∀ l : Listing,
      (∀ name below, l.get? name = some (.folder below) → motive below) → motive l)
    (l : Listing) : motive l :=
  step l fun _ below h =>
    have : sizeOf below < sizeOf l := sizeOf_lt_of_get? h
    induction_below step below
termination_by sizeOf l

theorem mem_fileNames_iff {l : Listing} (h : l.Distinct) {name : Text} :
    name ∈ l.fileNames ↔ ∃ bytes, l.get? name = some (.file bytes) := by
  induction l with
  | nil => simp [fileNames, get?]
  | file m bytes rest ih =>
    rw [fileNames, List.mem_cons, ih h.2, get?]
    by_cases hm : m = name
    · simp [hm]
    · simp [hm, Ne.symm hm]
  | folder m entries rest _ ih =>
    rw [fileNames, ih h.2.2, get?]
    by_cases hm : m = name
    · subst hm
      rw [if_pos rfl]
      constructor
      · rintro ⟨bytes, hget⟩
        exact absurd (mem_names_of_get? hget) h.1
      · rintro ⟨bytes, hget⟩
        cases hget
    · rw [if_neg hm]

theorem fileNames_sublist (l : Listing) : l.fileNames.Sublist l.names := by
  induction l with
  | nil => exact .slnil
  | file m bytes rest ih => exact ih.cons_cons m
  | folder m entries rest _ ih => exact ih.cons m

theorem Distinct.nodup_names {l : Listing} (h : l.Distinct) : l.names.Nodup := by
  induction l with
  | nil => exact .nil
  | file m bytes rest ih => exact List.nodup_cons.mpr ⟨h.1, ih h.2⟩
  | folder m entries rest _ ih => exact List.nodup_cons.mpr ⟨h.1, ih h.2.2⟩

/-! ## The walk below a directory -/

section Walk

variable {selection : FileSelection} {directory p : Pathname} {l : Listing}

theorem mem_acceptedFiles_iff (h : l.Distinct) :
    p ∈ acceptedFiles selection directory l ↔
      ∃ name bytes, l.get? name = some (.file bytes) ∧ p = directory.child name ∧
        selection.accepts p.text = true := by
  simp only [acceptedFiles, Text.sorted, List.mem_filter, List.mem_map, List.mem_mergeSort,
    mem_fileNames_iff h]
  constructor
  · rintro ⟨⟨name, ⟨bytes, hget⟩, rfl⟩, haccept⟩
    exact ⟨name, bytes, hget, rfl, haccept⟩
  · rintro ⟨name, bytes, hget, rfl, haccept⟩
    exact ⟨⟨name, ⟨bytes, hget⟩, rfl⟩, haccept⟩

theorem mem_walksBelow_iff (h : l.Distinct) {name : Text} {ps : List Pathname} :
    (name, ps) ∈ walksBelow selection directory l ↔
      ∃ below, l.get? name = some (.folder below) ∧
        selection.prunes (directory.child name).text = false ∧
        ps = below.walk selection (directory.child name) := by
  induction l with
  | nil => simp [walksBelow, get?]
  | file m bytes rest ih =>
    rw [walksBelow, ih h.2, get?]
    by_cases hm : m = name
    · -- the name of a file is not that of a directory too
      subst hm
      rw [if_pos rfl]
      constructor
      · rintro ⟨below, hget, -⟩
        exact absurd (mem_names_of_get? hget) h.1
      · rintro ⟨below, hget, -⟩
        cases hget
    · rw [if_neg hm]
  | folder m entries rest _ ih =>
    have hmem : (name, ps) ∈ walksBelow selection directory (folder m entries rest) ↔
        (m = name ∧ selection.prunes (directory.child m).text = false ∧
          ps = entries.walk selection (directory.child m)) ∨
        (name, ps) ∈ walksBelow selection directory rest := by
      rw [walksBelow]
      by_cases hprune : selection.prunes (directory.child m).text = true
      · simp [hprune]
      · simp [hprune, walk, eq_comm]
    rw [hmem, ih h.2.2, get?]
    by_cases hm : m = name
    · subst hm
      rw [if_pos rfl]
      constructor
      · rintro (⟨-, hprune, rfl⟩ | ⟨below, hget, -⟩)
        · exact ⟨entries, rfl, hprune, rfl⟩
        · exact absurd (mem_names_of_get? hget) h.1
      · rintro ⟨below, hget, hprune, rfl⟩
        cases hget
        exact .inl ⟨rfl, hprune, rfl⟩
    · rw [if_neg hm]
      simp [hm]

/-- A walk visits the accepted files of the directory itself and, below each directory in it that is
not pruned, what a walk visits there. -/
theorem mem_walk_iff_step (h : l.Distinct) :
    p ∈ l.walk selection directory ↔
      (∃ name bytes, l.get? name = some (.file bytes) ∧ p = directory.child name ∧
        selection.accepts p.text = true) ∨
      ∃ name below, l.get? name = some (.folder below) ∧
        selection.prunes (directory.child name).text = false ∧
        p ∈ below.walk selection (directory.child name) := by
  rw [walk, List.mem_append, mem_acceptedFiles_iff h]
  simp only [sortedByName, List.mem_flatMap, List.mem_mergeSort, Prod.exists]
  constructor
  · rintro (hfile | ⟨name, ps, hps, hp⟩)
    · exact .inl hfile
    · obtain ⟨below, hget, hprune, rfl⟩ := (mem_walksBelow_iff h).mp hps
      exact .inr ⟨name, below, hget, hprune, hp⟩
  · rintro (hfile | ⟨name, below, hget, hprune, hp⟩)
    · exact .inl hfile
    · exact .inr ⟨name, _, (mem_walksBelow_iff h).mpr ⟨below, hget, hprune, rfl⟩, hp⟩

/-- **What a walk visits**: the accepted files below the directory to which no pruned directory
leads. -/
theorem mem_walk_iff (h : l.Distinct) :
    p ∈ l.walk selection directory ↔
      ∃ names, l.HasFile names ∧ p = directory.under names ∧
        selection.enters directory names = true ∧ selection.accepts p.text = true := by
  induction l using induction_below generalizing directory with
  | step l ih =>
    rw [mem_walk_iff_step h]
    constructor
    · rintro (⟨name, bytes, hget, rfl, haccept⟩ | ⟨name, below, hget, hprune, hp⟩)
      · exact ⟨[name], ⟨bytes, hget⟩, rfl, rfl, haccept⟩
      · obtain ⟨names, hfile, rfl, henters, haccept⟩ := (ih name below hget (h.get? hget)).mp hp
        exact ⟨name :: names, (hasFile_cons_iff hfile.ne_nil).mpr ⟨below, hget, hfile⟩,
          (Pathname.under_cons ..).symm,
          (FileSelection.enters_cons hfile.ne_nil).mpr ⟨hprune, henters⟩, haccept⟩
    · rintro ⟨names, hfile, rfl, henters, haccept⟩
      obtain ⟨name, names, rfl⟩ := List.exists_cons_of_ne_nil hfile.ne_nil
      by_cases hnames : names = []
      · subst hnames
        obtain ⟨bytes, hget⟩ := hfile
        exact .inl ⟨name, bytes, hget, rfl, haccept⟩
      · obtain ⟨below, hget, hbelow⟩ := (hasFile_cons_iff hnames).mp hfile
        obtain ⟨hprune, henters⟩ := (FileSelection.enters_cons hnames).mp henters
        refine .inr ⟨name, below, hget, hprune, (ih name below hget (h.get? hget)).mpr ?_⟩
        exact ⟨names, hbelow, Pathname.under_cons .., henters, haccept⟩

theorem walksBelow_names_sublist (selection : FileSelection) (directory : Pathname)
    (l : Listing) : ((walksBelow selection directory l).map (·.1)).Sublist l.names := by
  induction l with
  | nil => exact .slnil
  | file m bytes rest ih => exact ih.cons m
  | folder m entries rest _ ih =>
    rw [walksBelow]
    split
    · exact ih.cons m
    · exact ih.cons_cons m

theorem sortedByName_walksBelow_pairwise (selection : FileSelection) (directory : Pathname)
    (h : l.Distinct) :
    (sortedByName (walksBelow selection directory l)).Pairwise fun a b => Text.Before a.1 b.1 := by
  have hnames := h.nodup_names.sublist (walksBelow_names_sublist selection directory l)
  have hdistinct : (sortedByName (walksBelow selection directory l)).Pairwise
      fun a b => a.1 ≠ b.1 :=
    List.pairwise_map.mp (((List.mergeSort_perm ..).map _).nodup_iff.mpr hnames)
  exact (sortedByName_pairwise _).imp₂ (fun _ _ hle hne => ⟨hle, hne⟩) hdistinct

/-- **The order of a walk**: the files of a directory come by name, and after them those below its
directories by the names of the directories. -/
theorem walk_pairwise (h : l.Distinct) :
    (l.walk selection directory).Pairwise (Precedes directory) := by
  induction l using induction_below generalizing directory with
  | step l ih =>
    rw [walk, List.pairwise_append, List.pairwise_flatMap]
    have hbelow : ∀ walk ∈ sortedByName (walksBelow selection directory l),
        walk.2.Pairwise (Precedes (directory.child walk.1)) ∧
          ∀ p ∈ walk.2, ∃ names, names ≠ [] ∧ p = directory.under (walk.1 :: names) := by
      intro walk hwalk
      obtain ⟨below, hget, -, heq⟩ := (mem_walksBelow_iff h).mp (List.mem_mergeSort.mp hwalk)
      rw [heq]
      refine ⟨ih _ below hget (h.get? hget), fun p hp => ?_⟩
      obtain ⟨names, hfile, rfl, -⟩ := (mem_walk_iff (h.get? hget)).mp hp
      exact ⟨names, hfile.ne_nil, (Pathname.under_cons ..).symm⟩
    refine ⟨?_, ⟨fun walk hwalk => ?_, ?_⟩, fun p hp q hq => ?_⟩
    · -- the files of the directory itself
      have hnames : (Text.sorted l.fileNames).Pairwise Text.Before :=
        Text.sorted_pairwise (h.nodup_names.sublist l.fileNames_sublist)
      refine (List.pairwise_map.mpr (hnames.imp fun {a b} hab => ?_)).filter _
      exact ⟨[a], [b], rfl, rfl, .files hab⟩
    · -- what is below one directory
      refine (hbelow walk hwalk).1.imp fun {p q} hpq => ?_
      obtain ⟨names, names', rfl, rfl, hnames⟩ := hpq
      exact ⟨walk.1 :: names, walk.1 :: names', (Pathname.under_cons ..).symm,
        (Pathname.under_cons ..).symm, .inFolder walk.1 hnames⟩
    · -- what is below two directories
      refine (sortedByName_walksBelow_pairwise selection directory h).imp_of_mem ?_
      intro walk walk' hwalk hwalk' hbefore p hp q hq
      obtain ⟨names, hnames, rfl⟩ := (hbelow walk hwalk).2 p hp
      obtain ⟨names', hnames', rfl⟩ := (hbelow walk' hwalk').2 q hq
      exact ⟨_, _, rfl, rfl, .folders hbefore hnames hnames'⟩
    · -- a file of the directory itself, and what is below it
      obtain ⟨name, bytes, -, rfl, -⟩ := (mem_acceptedFiles_iff h).mp hp
      obtain ⟨walk, hwalk, hq⟩ := List.mem_flatMap.mp hq
      obtain ⟨names, hnames, rfl⟩ := (hbelow walk hwalk).2 q hq
      exact ⟨[name], _, rfl, rfl, .fileFirst name walk.1 hnames⟩

end Walk
end Listing

namespace FileSystem

/-- A pathname leads to a directory, and `names` lead from there to a file; or it leads to a file
itself, and there are no names. -/
def FileBelow (fs : FileSystem) (root : Pathname) (names : List Text) : Prop :=
  match fs.node? root with
  | none => False
  | some (.file _) => names = []
  | some (.folder entries) => entries.HasFile names

/-- A file is at a pathname or below it, no pruned directory stands between the two, and the file is
accepted. -/
def Reaches (fs : FileSystem) (selection : FileSelection) (root p : Pathname) : Prop :=
  ∃ names, fs.FileBelow root names ∧ p = root.under names ∧
    selection.enters root names = true ∧ selection.accepts p.text = true

variable {fs : FileSystem} {selection : FileSelection} {root p : Pathname}

theorem node?_eq_some_iff {node : FileNode} :
    fs.node? root = some node ↔ ∃ place, fs.find root = .ok ⟨place, node⟩ := by
  rw [node?]
  cases hfind : fs.find root with
  | error fault => simp
  | ok d =>
    obtain ⟨place, found⟩ := d
    simp

theorem distinct_of_node? {entries : Listing} (h : fs.node? root = some (.folder entries)) :
    entries.Distinct := by
  obtain ⟨place, hfind⟩ := node?_eq_some_iff.mp h
  obtain ⟨trail, hbelow, -⟩ := descend_folder (.start fs.top) hfind
  exact hbelow.distinct fs.distinct

/-- **What a walk visits**, from the pathname on at which it starts. -/
theorem mem_sourceFiles_iff : p ∈ fs.sourceFiles selection root ↔ fs.Reaches selection root p := by
  rw [sourceFiles, Reaches]
  cases hnode : fs.node? root with
  | none => simp [FileBelow, hnode]
  | some node =>
    cases node with
    | file bytes =>
      simp only [FileBelow, hnode, exists_eq_left, Pathname.under_nil]
      split
      · next haccept => simp +contextual [haccept, FileSelection.enters]
      · next haccept => simp +contextual [haccept]
    | folder entries =>
      simp only [FileBelow, hnode]
      exact Listing.mem_walk_iff (distinct_of_node? hnode)

theorem sourceFiles_pairwise (fs : FileSystem) (selection : FileSelection) (root : Pathname) :
    (fs.sourceFiles selection root).Pairwise (Precedes root) := by
  rw [sourceFiles]
  split
  · exact .nil
  · split
    · exact List.pairwise_singleton _ root
    · exact .nil
  · next hnode => exact Listing.walk_pairwise (distinct_of_node? hnode)

/-- A walk visits no file twice. -/
theorem nodup_sourceFiles : (fs.sourceFiles selection root).Nodup :=
  (sourceFiles_pairwise fs selection root).imp fun h heq => (heq ▸ h).asymm (heq ▸ h)

/-- Walks in two file systems that visit the same files visit them in the same order. -/
theorem sourceFiles_filter_eq {fs' : FileSystem} (keeps : Pathname → Bool)
    (h : ∀ p, fs'.Reaches selection root p ↔ fs.Reaches selection root p ∧ keeps p = true) :
    fs'.sourceFiles selection root = (fs.sourceFiles selection root).filter keeps := by
  have hperm : (fs'.sourceFiles selection root).Perm
      ((fs.sourceFiles selection root).filter keeps) := by
    refine (List.perm_ext_iff_of_nodup nodup_sourceFiles (nodup_sourceFiles.filter _)).mpr
      fun p => ?_
    rw [List.mem_filter, mem_sourceFiles_iff, mem_sourceFiles_iff, h]
  exact hperm.eq_of_pairwise (fun _ _ _ _ hpq hqp => absurd hqp hpq.asymm)
    (sourceFiles_pairwise ..) ((sourceFiles_pairwise ..).filter _)

/-- A walk makes as many visits as there are files that it reaches. -/
theorem length_sourceFiles :
    (fs.sourceFiles selection root).length = {p | fs.Reaches selection root p}.ncard := by
  have hset : {p | fs.Reaches selection root p} = (fs.sourceFiles selection root).toFinset := by
    ext p
    simp [mem_sourceFiles_iff]
  rw [hset, Set.ncard_coe_finset, List.toFinset_card_of_nodup nodup_sourceFiles]

end FileSystem
end SourceStamp
