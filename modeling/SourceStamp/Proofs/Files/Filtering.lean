import SourceStamp.Proofs.Files.Pruning

/-!
# Walks as filters

A walk with the usual excluding pattern leaves out whole directories. What it visits is all the same
what a search through all files would keep.

- `Listing.mem_paths_iff`, `Listing.nodup_paths`: the files of a listing, each once.
- `Listing.entered`: the directories that a walk enters, and `Listing.walk_eq_entered`: the files
  that it visits are those that it accepts in them.
- `Listing.admits_of_mem_entered`: no directory that it enters is pruned or below a pruned one.
- `Listing.Reordered`: the same directory listed in another order.
- `FileSystem.sourceFiles_filters`: the three together.
-/

namespace SourceStamp

/-- Whether names lead from what an entry stands for to a file. -/
def FileNode.HasFile : FileNode → List Text → Prop
  | file _, names => names = []
  | folder entries, names => entries.HasFile names

namespace Listing

/-! ## All files -/

theorem not_hasFile_nil (names : List Text) : ¬ nil.HasFile names := by
  rcases names with _ | ⟨name, _ | ⟨next, rest⟩⟩ <;> simp [HasFile, get?]

theorem mem_names_of_hasFile {l : Listing} {name : Text} {rest : List Text}
    (h : l.HasFile (name :: rest)) : name ∈ l.names := by
  cases rest with
  | nil =>
    obtain ⟨bytes, hget⟩ := h
    exact mem_names_of_get? hget
  | cons next rest =>
    obtain ⟨below, hget, -⟩ := h
    exact mem_names_of_get? hget

/-- What stands for a name tells which files it leads to. -/
theorem hasFile_cons_iff_of_get? {l : Listing} {name : Text} {rest : List Text} :
    l.HasFile (name :: rest) ↔ ∃ node, l.get? name = some node ∧ node.HasFile rest := by
  constructor
  · intro h
    cases rest with
    | nil =>
      obtain ⟨bytes, hget⟩ := h
      exact ⟨_, hget, rfl⟩
    | cons next rest =>
      obtain ⟨below, hget, hbelow⟩ := h
      exact ⟨_, hget, hbelow⟩
  · rintro ⟨node, hget, hnode⟩
    cases node with
    | file bytes =>
      obtain rfl : rest = [] := hnode
      exact ⟨bytes, hget⟩
    | folder entries => exact (hasFile_cons_iff (HasFile.ne_nil hnode)).mpr ⟨entries, hget, hnode⟩

/-- The files of a listing are those that its first entry leads to, and those of the others. -/
theorem hasFile_entry_iff {name : Text} (node : FileNode) {rest : Listing}
    (h : name ∉ rest.names) {names : List Text} :
    (cons name node rest).HasFile names ↔
      (∃ more, names = name :: more ∧ node.HasFile more) ∨ rest.HasFile names := by
  cases names with
  | nil => simp [HasFile]
  | cons n more =>
    rw [hasFile_cons_iff_of_get?, get?_cons]
    by_cases hn : name = n
    · subst hn
      have hrest : ¬ rest.HasFile (name :: more) := fun hfile => h (mem_names_of_hasFile hfile)
      simp [hrest]
    · simp [hn, Ne.symm hn, hasFile_cons_iff_of_get?]

theorem mem_paths_iff {l : Listing} (h : l.Distinct) {path p : List Text} :
    p ∈ (filesBelow path l).map (·.1) ↔ ∃ names, l.HasFile names ∧ p = path ++ names := by
  induction l generalizing path with
  | nil => simp [filesBelow, not_hasFile_nil]
  | file name bytes rest ih =>
    have hentry : ∀ names, (file name bytes rest).HasFile names ↔ _ := fun names =>
      hasFile_entry_iff (.file bytes) h.1
    simp only [filesBelow, List.map_cons, List.mem_cons, ih h.2, hentry, FileNode.HasFile]
    constructor
    · rintro (rfl | ⟨names, hfile, rfl⟩)
      · exact ⟨[name], .inl ⟨[], rfl, rfl⟩, rfl⟩
      · exact ⟨names, .inr hfile, rfl⟩
    · rintro ⟨names, ⟨more, rfl, rfl⟩ | hfile, rfl⟩
      · exact .inl rfl
      · exact .inr ⟨names, hfile, rfl⟩
  | folder name entries rest ihentries ihrest =>
    have hentry : ∀ names, (folder name entries rest).HasFile names ↔ _ := fun names =>
      hasFile_entry_iff (.folder entries) h.1
    simp only [filesBelow, List.map_append, List.mem_append, ihentries h.2.1, ihrest h.2.2, hentry,
      FileNode.HasFile]
    constructor
    · rintro (⟨more, hfile, rfl⟩ | ⟨names, hfile, rfl⟩)
      · exact ⟨name :: more, .inl ⟨more, rfl, hfile⟩, by simp⟩
      · exact ⟨names, .inr hfile, rfl⟩
    · rintro ⟨names, ⟨more, rfl, hfile⟩ | hfile, rfl⟩
      · exact .inl ⟨more, hfile, by simp⟩
      · exact .inr ⟨names, hfile, rfl⟩

/-- A path to an entry does not occur among those of other names. -/
theorem append_cons_notMem_paths {l : Listing} (h : l.Distinct) {name : Text}
    (hname : name ∉ l.names) (path more : List Text) :
    path ++ name :: more ∉ (filesBelow path l).map (·.1) := by
  intro hmem
  obtain ⟨names, hfile, heq⟩ := (mem_paths_iff h).mp hmem
  obtain rfl : name :: more = names := List.append_cancel_left heq
  exact hname (mem_names_of_hasFile hfile)

theorem nodup_paths {l : Listing} (h : l.Distinct) (path : List Text) :
    ((filesBelow path l).map (·.1)).Nodup := by
  induction l generalizing path with
  | nil => exact List.nodup_nil
  | file name bytes rest ih =>
    exact List.nodup_cons.mpr ⟨append_cons_notMem_paths h.2 h.1 path [], ih h.2 path⟩
  | folder name entries rest ihentries ihrest =>
    rw [filesBelow, List.map_append, List.nodup_append]
    refine ⟨ihentries h.2.1 _, ihrest h.2.2 path, ?_⟩
    rintro p hp q hq rfl
    obtain ⟨names, -, rfl⟩ := (mem_paths_iff h.2.1).mp hp
    rw [List.append_assoc] at hq
    exact append_cons_notMem_paths h.2.2 h.1 path names hq

/-! ## Directories that are entered -/

/-- For each directory of a listing that is not pruned, the directories that a walk enters there,
each with its entries. -/
def enteredBelow (selection : FileSelection) (directory : Pathname) :
    Listing → List (Text × List (Pathname × Listing))
  | nil => []
  | file _ _ rest => enteredBelow selection directory rest
  | folder name entries rest =>
    let path := directory.child name
    if selection.prunes path.text then enteredBelow selection directory rest
    else
      let inner := (sortedByName (enteredBelow selection path entries)).flatMap (·.2)
      (name, (path, entries) :: inner) :: enteredBelow selection directory rest

/-- The directories that a walk enters, in order, each with its entries. -/
def entered (selection : FileSelection) (directory : Pathname) (l : Listing) :
    List (Pathname × Listing) :=
  (directory, l) :: (sortedByName (enteredBelow selection directory l)).flatMap (·.2)

theorem sortedByName_map {α β : Type} (f : α → β) (named : List (Text × α)) :
    sortedByName (named.map fun n => (n.1, f n.2)) =
      (sortedByName named).map fun n => (n.1, f n.2) := by
  have hmap : (named.mergeSort fun a b => Text.isAtMost a.1 b.1).map (fun n => (n.1, f n.2)) =
      (named.map fun n => (n.1, f n.2)).mergeSort fun a b => Text.isAtMost a.1 b.1 :=
    List.map_mergeSort fun _ _ _ _ => rfl
  exact hmap.symm

/-- The accepted files of the directories that are entered. -/
def acceptedIn (selection : FileSelection) (ds : List (Pathname × Listing)) : List Pathname :=
  ds.flatMap fun d => acceptedFiles selection d.1 d.2

theorem acceptedIn_entered {selection : FileSelection} {directory : Pathname} {l : Listing}
    (h : walksBelow selection directory l =
      (enteredBelow selection directory l).map fun n => (n.1, acceptedIn selection n.2)) :
    acceptedIn selection (entered selection directory l) = l.walk selection directory := by
  rw [walk, h, sortedByName_map, entered, acceptedIn, List.flatMap_cons, List.flatMap_assoc,
    List.flatMap_map]
  rfl

theorem walksBelow_eq (selection : FileSelection) (directory : Pathname) (l : Listing) :
    walksBelow selection directory l =
      (enteredBelow selection directory l).map fun n => (n.1, acceptedIn selection n.2) := by
  induction l generalizing directory with
  | nil => rfl
  | file name bytes rest ih => exact ih directory
  | folder name entries rest ihentries ihrest =>
    have hbelow := acceptedIn_entered (ihentries (directory.child name))
    rw [entered, walk] at hbelow
    rw [walksBelow, enteredBelow]
    by_cases hprune : selection.prunes (directory.child name).text = true
    · simp only [if_pos hprune]
      exact ihrest directory
    · simp only [if_neg hprune, List.map_cons, hbelow, ihrest directory]

/-- **A walk looks at the directories that it enters**, and at no others. -/
theorem walk_eq_entered (selection : FileSelection) (directory : Pathname) (l : Listing) :
    l.walk selection directory =
      (entered selection directory l).flatMap fun d => acceptedFiles selection d.1 d.2 :=
  (acceptedIn_entered (walksBelow_eq selection directory l)).symm

end Listing

/-- Names lead from a directory to one below, and none of those on the way to it is pruned, nor
itself. -/
def FileSelection.Admits (selection : FileSelection) (directory : Pathname)
    (names : List Text) : Prop :=
  ∀ front, front ≠ [] → front <+: names → selection.prunes (directory.under front).text = false

namespace FileSelection

variable {selection : FileSelection} {directory : Pathname}

theorem admits_nil : selection.Admits directory [] := fun _ hne hfront =>
  absurd (List.prefix_nil.mp hfront) hne

theorem admits_cons {name : Text} {names : List Text}
    (hname : selection.prunes (directory.child name).text = false)
    (h : selection.Admits (directory.child name) names) :
    selection.Admits directory (name :: names) := by
  intro front hne hfront
  obtain ⟨first, front, rfl⟩ := List.exists_cons_of_ne_nil hne
  obtain ⟨rfl, hrest⟩ := List.cons_prefix_cons.mp hfront
  rw [Pathname.under_cons]
  by_cases hnil : front = []
  · rw [hnil, Pathname.under_nil]
    exact hname
  · exact h front hnil hrest

end FileSelection

namespace Listing

variable {selection : FileSelection} {directory : Pathname} {l : Listing}

theorem admits_of_mem_enteredBelow {name : Text} {ds : List (Pathname × Listing)}
    (h : (name, ds) ∈ enteredBelow selection directory l) {d : Pathname × Listing} (hd : d ∈ ds) :
    ∃ names, d.1 = directory.under names ∧ selection.Admits directory names := by
  induction l generalizing directory name ds d with
  | nil => cases h
  | file n bytes rest ih => exact ih h hd
  | folder n entries rest ihentries ihrest =>
    rw [enteredBelow] at h
    split at h
    · exact ihrest h hd
    · next hprune =>
      rw [Bool.not_eq_true] at hprune
      rcases List.mem_cons.mp h with heq | h
      · obtain ⟨rfl, rfl⟩ := Prod.mk.inj heq
        rcases List.mem_cons.mp hd with rfl | hd
        · exact ⟨[name], rfl, FileSelection.admits_cons hprune FileSelection.admits_nil⟩
        · obtain ⟨⟨n, ds⟩, hds, hd⟩ := List.mem_flatMap.mp hd
          obtain ⟨names, hnames, hadmits⟩ := ihentries (List.mem_mergeSort.mp hds) hd
          exact ⟨name :: names, hnames.trans (Pathname.under_cons ..).symm,
            FileSelection.admits_cons hprune hadmits⟩
      · exact ihrest h hd

/-- **Pruned directories are not entered**, nor are those below them. -/
theorem admits_of_mem_entered {d : Pathname × Listing} (h : d ∈ entered selection directory l) :
    ∃ names, d.1 = directory.under names ∧ selection.Admits directory names := by
  rcases List.mem_cons.mp h with rfl | h
  · exact ⟨[], (Pathname.under_nil directory).symm, FileSelection.admits_nil⟩
  · obtain ⟨⟨name, ds⟩, hds, hd⟩ := List.mem_flatMap.mp h
    exact admits_of_mem_enteredBelow (List.mem_mergeSort.mp hds) hd

/-! ## Listings in another order -/

/-- The same directory with its entries, and those of the directories below, in another order. What
the files hold may differ too. -/
inductive Reordered : Listing → Listing → Prop
  | nil : Reordered nil nil
  | file (name : Text) (bytes bytes' : Bytes) {l l' : Listing} (h : Reordered l l') :
    Reordered (file name bytes l) (file name bytes' l')
  | folder (name : Text) {below below' l l' : Listing} (hbelow : Reordered below below')
      (h : Reordered l l') :
    Reordered (folder name below l) (folder name below' l')
  | swap (a b : Text) (x y : FileNode) (l : Listing) :
    Reordered (cons a x (cons b y l)) (cons b y (cons a x l))
  | trans {l l' l'' : Listing} (h : Reordered l l') (h' : Reordered l' l'') : Reordered l l''

namespace Reordered

theorem names_perm {l l' : Listing} (h : l.Reordered l') : l.names.Perm l'.names := by
  induction h with
  | nil => exact .nil
  | file name bytes bytes' _ ih => exact ih.cons name
  | folder name _ _ _ ih => exact ih.cons name
  | swap a b x y l =>
    simp only [names_cons]
    exact .swap b a l.names
  | trans _ _ ih ih' => exact ih.trans ih'

theorem distinct {l l' : Listing} (h : l.Reordered l') (hl : l.Distinct) : l'.Distinct := by
  induction h with
  | nil => exact hl
  | file name bytes bytes' h ih => exact ⟨fun hn => hl.1 (h.names_perm.mem_iff.mpr hn), ih hl.2⟩
  | folder name hbelow h ihbelow ih =>
    exact ⟨fun hn => hl.1 (h.names_perm.mem_iff.mpr hn), ihbelow hl.2.1, ih hl.2.2⟩
  | swap a b x y l =>
    simp only [distinct_cons, names_cons, List.mem_cons, not_or] at hl ⊢
    obtain ⟨⟨hab, ha⟩, hx, hb, hy, hl⟩ := hl
    exact ⟨⟨Ne.symm hab, hb⟩, hy, ha, hx, hl⟩
  | trans _ _ ih ih' => exact ih' (ih hl)

/-- A directory has the same files in whatever order it is listed. -/
theorem hasFile_iff {l l' : Listing} (h : l.Reordered l') (hl : l.Distinct) (names : List Text) :
    l.HasFile names ↔ l'.HasFile names := by
  induction h generalizing names with
  | nil => exact Iff.rfl
  | @file name bytes bytes' l l' h ih =>
    have hrest := ih hl.2 names
    have hname : name ∉ l'.names := fun hn => hl.1 (h.names_perm.mem_iff.mpr hn)
    exact (hasFile_entry_iff (.file bytes) hl.1).trans
      ((or_congr_right hrest).trans (hasFile_entry_iff (.file bytes') hname).symm)
  | @folder name below below' l l' hbelow h ihbelow ih =>
    have hrest := ih hl.2.2 names
    have hname : name ∉ l'.names := fun hn => hl.1 (h.names_perm.mem_iff.mpr hn)
    have hnode : ∀ more,
        (FileNode.folder below).HasFile more ↔ (FileNode.folder below').HasFile more :=
      ihbelow hl.2.1
    refine (hasFile_entry_iff (.folder below) hl.1).trans
      (Iff.trans (or_congr ?_ hrest) (hasFile_entry_iff (.folder below') hname).symm)
    exact exists_congr fun more => and_congr_right fun _ => hnode more
  | swap a b x y l =>
    have hl' := (Reordered.swap a b x y l).distinct hl
    obtain ⟨hax, -, hl⟩ := distinct_cons.mp hl
    obtain ⟨hbx, -, hl'⟩ := distinct_cons.mp hl'
    rw [hasFile_entry_iff _ hax, hasFile_entry_iff _ hbx,
      hasFile_entry_iff _ (distinct_cons.mp hl).1, hasFile_entry_iff _ (distinct_cons.mp hl').1]
    exact or_left_comm
  | trans h _ ih ih' => exact (ih hl names).trans (ih' (h.distinct hl) names)

end Reordered
end Listing

/-! ## The walk and the filter -/

namespace FileSystem

variable {fs : FileSystem} {root : Pathname} {entries : Listing}

theorem fileBelow_iff (hroot : fs.node? root = some (.folder entries)) (names : List Text) :
    fs.FileBelow root names ↔ entries.HasFile names := by
  rw [FileBelow, hroot]

/-- The pathnames of all files below a directory. -/
def pathnamesBelow (root : Pathname) (entries : Listing) : List Pathname :=
  entries.files.map fun f => root.under f.1

theorem mem_pathnamesBelow_iff (h : entries.Distinct) {p : Pathname} :
    p ∈ pathnamesBelow root entries ↔ ∃ names, entries.HasFile names ∧ p = root.under names := by
  have hpaths : ∀ names, names ∈ entries.files.map (·.1) ↔ entries.HasFile names := fun names => by
    simp [Listing.files, Listing.mem_paths_iff h]
  constructor
  · intro hp
    obtain ⟨f, hf, rfl⟩ := List.mem_map.mp hp
    exact ⟨f.1, (hpaths f.1).mp (List.mem_map_of_mem hf), rfl⟩
  · rintro ⟨names, hfile, rfl⟩
    obtain ⟨f, hf, rfl⟩ := List.mem_map.mp ((hpaths names).mpr hfile)
    exact List.mem_map_of_mem hf

theorem nodup_pathnamesBelow (h : entries.Distinct) (root : Pathname) :
    (pathnamesBelow root entries).Nodup := by
  have hmap : pathnamesBelow root entries = (entries.files.map (·.1)).map root.under := by
    simp [pathnamesBelow, List.map_map]
  rw [hmap]
  exact (Listing.nodup_paths h []).map fun _ _ => Pathname.under_injective

variable {selection : FileSelection}

/-- Where no pruned directory stands above an accepted file, a walk visits the accepted files. -/
theorem sourceFiles_perm (hlocal : selection.IsLocal)
    (hroot : fs.node? root = some (.folder entries)) :
    (fs.sourceFiles selection root).Perm
      ((pathnamesBelow root entries).filter (selection.accepts ·.text)) := by
  have hdistinct := distinct_of_node? hroot
  refine (List.perm_ext_iff_of_nodup nodup_sourceFiles
    ((nodup_pathnamesBelow hdistinct root).filter _)).mpr fun p => ?_
  rw [mem_sourceFiles_iff, Reaches, List.mem_filter, mem_pathnamesBelow_iff hdistinct]
  simp only [fileBelow_iff hroot]
  constructor
  · rintro ⟨names, hfile, rfl, -, haccept⟩
    exact ⟨⟨names, hfile, rfl⟩, haccept⟩
  · rintro ⟨⟨names, hfile, rfl⟩, haccept⟩
    exact ⟨names, hfile, rfl, FileSelection.enters_of_accepts hlocal haccept, haccept⟩

/-- The order in which directories are listed makes no difference to a walk. -/
theorem sourceFiles_reordered {fs' : FileSystem} {entries' : Listing}
    (hroot : fs.node? root = some (.folder entries))
    (hroot' : fs'.node? root = some (.folder entries')) (h : entries.Reordered entries') :
    fs'.sourceFiles selection root = fs.sourceFiles selection root := by
  have hreaches : ∀ p, fs'.Reaches selection root p ↔
      fs.Reaches selection root p ∧ (fun _ => true) p = true := by
    intro p
    simp only [Reaches, fileBelow_iff hroot, fileBelow_iff hroot',
      h.hasFile_iff (distinct_of_node? hroot), and_true]
  rw [sourceFiles_filter_eq (fun _ => true) hreaches, List.filter_true]

/-- **Walks are filters.** With the usual excluding pattern and any condition to include, a walk
below a directory visits the accepted ones among all files below, each once, though it looks at no
more than the directories that it enters, of which none is pruned or below a pruned one. It visits
them in the same order however the directories are listed. -/
theorem sourceFiles_filters (fs : FileSystem) (includes : Text → Bool) (root : Pathname)
    {entries : Listing} (hroot : fs.node? root = some (.folder entries)) :
    let selection : FileSelection := ⟨includes, FileSelection.standard.excludes⟩
    (fs.sourceFiles selection root).Perm
        ((pathnamesBelow root entries).filter (selection.accepts ·.text)) ∧
      (fs.sourceFiles selection root).Nodup ∧
      fs.sourceFiles selection root =
        (entries.entered selection root).flatMap (fun d => d.2.acceptedFiles selection d.1) ∧
      (∀ d ∈ entries.entered selection root,
        ∃ names, d.1 = root.under names ∧ selection.Admits root names) ∧
      ∀ (fs' : FileSystem) (entries' : Listing), fs'.node? root = some (.folder entries') →
        entries.Reordered entries' →
          fs'.sourceFiles selection root = fs.sourceFiles selection root := by
  intro selection
  have hlocal : selection.IsLocal := FileSelection.isLocal_standard includes
  refine ⟨sourceFiles_perm hlocal hroot, nodup_sourceFiles, ?_,
    fun d hd => Listing.admits_of_mem_entered hd, fun fs' entries' hroot' hreordered =>
      sourceFiles_reordered hroot hroot' hreordered⟩
  rw [sourceFiles, hroot]
  exact Listing.walk_eq_entered selection root entries

/-- Two scripts and a text, one of the scripts among dependencies. -/
def scripts : FileSystem :=
  (((empty []).putFile ["src".toList, "a.ts".toList] []).putFile
    ["src".toList, "b".toList] []).putFile ["node_modules".toList, "c.js".toList] []

/-- The same files, with the directory of the dependencies listed first. -/
def scriptsReordered : FileSystem :=
  (((empty []).putFile ["node_modules".toList, "c.js".toList] []).putFile
    ["src".toList, "a.ts".toList] []).putFile ["src".toList, "b".toList] []

/-- One script is visited, and the directory of the other one is not entered. -/
theorem sourceFiles_filters_scripts :
    ∃ entries, scripts.node? (.ofText ['.']) = some (.folder entries) ∧
      scripts.sourceFiles .standard (.ofText ['.']) = [.ofText "src/a.ts".toList] ∧
      (∀ d ∈ entries.entered .standard (.ofText ['.']), d.1 ≠ .ofText "node_modules".toList) ∧
      scriptsReordered.sourceFiles .standard (.ofText ['.']) = [.ofText "src/a.ts".toList] := by
  obtain ⟨hperm, -, -, hentered, hsame⟩ := sourceFiles_filters scripts
    FileSelection.standard.includes (.ofText ['.']) rfl
  have hvisited : scripts.sourceFiles .standard (.ofText ['.']) = [.ofText "src/a.ts".toList] := by
    have hfiltered : (pathnamesBelow (.ofText ['.']) scripts.top).filter
        (FileSelection.standard.accepts ·.text) = [.ofText "src/a.ts".toList] := by
      decide +kernel
    exact List.perm_singleton.mp (hfiltered ▸ hperm)
  have hreordered : scripts.top.Reordered scriptsReordered.top :=
    .swap "src".toList "node_modules".toList
      (.folder (.file "a.ts".toList [] (.file "b".toList [] .nil)))
      (.folder (.file "c.js".toList [] .nil)) .nil
  refine ⟨_, rfl, hvisited, fun d hd hdependencies => ?_,
    (hsame scriptsReordered _ rfl hreordered).trans hvisited⟩
  obtain ⟨names, hnames, hadmits⟩ := hentered d hd
  obtain rfl : names = ["node_modules".toList] := by
    have hparts := congrArg Pathname.parts (hnames.symm.trans hdependencies)
    exact hparts
  have hprunes := hadmits ["node_modules".toList] (by simp) (List.prefix_refl _)
  exact absurd hprunes (by decide +kernel)

end FileSystem
end SourceStamp
