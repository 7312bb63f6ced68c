import SourceStamp.Proofs.Files.Walk

/-!
# Places of files

Several pathnames can lead to one file. What tells files apart is their place, the path from the
topmost directory on.

- `Listing.contentAt?`: the content of the file at a place.
- `FileSystem.find_under`: the place of a file below a pathname.
- `FileSystem.approach?`: the pathname with which a walk from a given pathname on visits the file at
  a place.
- `FileSystem.sourceFiles_filter_leadsTo`: a walk visits a file with that pathname or not at all.
-/

namespace SourceStamp

namespace Listing

/-- The content of the file at a path. -/
def contentAt? : Listing → List Text → Option Bytes
  | _, [] => none
  | l, [name] =>
    match l.get? name with
    | some (.file bytes) => some bytes
    | _ => none
  | l, name :: rest =>
    match l.get? name with
    | some (.folder below) => below.contentAt? rest
    | _ => none

theorem contentAt?_singleton {l : Listing} {name : Text} {bytes : Bytes}
    (hget : l.get? name = some (.file bytes)) : l.contentAt? [name] = some bytes := by
  rw [contentAt?, hget]

theorem contentAt?_folder {l below : Listing} {name : Text}
    (hget : l.get? name = some (.folder below)) (rest : List Text) :
    l.contentAt? (name :: rest) = below.contentAt? rest := by
  cases rest with
  | nil => simp [contentAt?, hget]
  | cons part rest => simp [contentAt?, hget]

theorem hasFile_iff_contentAt? {l : Listing} {path : List Text} :
    l.HasFile path ↔ ∃ bytes, l.contentAt? path = some bytes := by
  induction path generalizing l with
  | nil => simp [HasFile, contentAt?]
  | cons name rest ih =>
    cases hget : l.get? name with
    | none => cases rest <;> simp [HasFile, contentAt?, hget]
    | some node =>
      cases node with
      | file bytes => cases rest <;> simp [HasFile, contentAt?, hget]
      | folder below =>
        rw [contentAt?_folder hget, ← ih]
        cases rest <;> simp [HasFile, hget]

/-- No file is below a file. -/
theorem eq_nil_of_contentAt?_append {l : Listing} {path names : List Text} {bytes : Bytes}
    (h : l.contentAt? path = some bytes) (hfile : l.HasFile (path ++ names)) : names = [] := by
  induction path generalizing l with
  | nil => cases h
  | cons name rest ih =>
    cases hget : l.get? name with
    | none => cases rest <;> simp [contentAt?, hget] at h
    | some node =>
      cases node with
      | folder below =>
        rw [contentAt?_folder hget] at h
        rw [hasFile_iff_contentAt?, List.cons_append, contentAt?_folder hget,
          ← hasFile_iff_contentAt?] at hfile
        exact ih h hfile
      | file bytes =>
        cases rest with
        | cons part rest => simp [contentAt?, hget] at h
        | nil =>
          by_contra hnames
          obtain ⟨below, hfolder, -⟩ := (hasFile_cons_iff hnames).mp hfile
          rw [hget] at hfolder
          cases hfolder

end Listing

namespace FileSystem

theorem Below.contentAt? {top : Listing} {trail : List (Text × Listing)} {l : Listing}
    (h : Below top trail l) (rest : List Text) :
    top.contentAt? (placeOf trail ++ rest) = l.contentAt? rest := by
  induction trail generalizing l rest with
  | nil =>
    obtain rfl : l = top := h
    rfl
  | cons step trail ih =>
    obtain ⟨name, parent⟩ := step
    rw [placeOf_cons, List.append_assoc, ih h.2, List.singleton_append,
      Listing.contentAt?_folder h.1]

/-- A pathname that leads to a file leads to the content at its place. -/
theorem contentAt?_of_descend {top : Listing} {parts : List Text} {trail : List (Text × Listing)}
    {l : Listing} (h : Below top trail l) {place : List Text} {bytes : Bytes}
    (hd : descend trail l parts = .ok ⟨place, .file bytes⟩) :
    top.contentAt? place = some bytes := by
  fun_induction descend trail l parts with
  | case1 => cases hd
  | case2 l rest ih => exact ih h hd
  | case3 l rest name parent trail ih => exact ih h.2 hd
  | case4 => cases hd
  | case5 trail l part rest _ below hget ih => exact ih ⟨hget, h⟩ hd
  | case6 trail l part rest _ content hget _ =>
    cases hd
    have hplace : (part :: trail.map (·.1)).reverse = placeOf trail ++ [part] := by
      simp [placeOf]
    rw [hplace, h.contentAt?, Listing.contentAt?_singleton hget]
  | case7 => cases hd

variable {fs : FileSystem} {selection : FileSelection} {root p : Pathname}
  {place found : List Text} {bytes content : Bytes}

theorem contentAt?_of_find (h : fs.find p = .ok ⟨place, .file bytes⟩) :
    fs.top.contentAt? place = some bytes :=
  contentAt?_of_descend (.start fs.top) h

theorem contentAt?_of_read (h : fs.read p = .ok (place, bytes)) :
    fs.top.contentAt? place = some bytes :=
  contentAt?_of_find (read_eq_ok_iff.mp h).2

theorem partsFromTop_under (names : List Text) :
    fs.partsFromTop (root.under names) = fs.partsFromTop root ++ names := by
  unfold partsFromTop
  have habsolute : (root.under names).isAbsolute = root.isAbsolute := rfl
  rw [habsolute]
  split
  · rfl
  · rw [List.append_assoc]
    rfl

/-- A file below a pathname stands below the place of that pathname. -/
theorem find_under (hnamed : fs.top.isNamed = true) {names : List Text}
    (h : fs.FileBelow root names) :
    ∃ base node bytes, fs.find root = .ok ⟨base, node⟩ ∧
      fs.find (root.under names) = .ok ⟨base ++ names, .file bytes⟩ := by
  cases hnode : fs.node? root with
  | none => simp [FileBelow, hnode] at h
  | some node =>
    obtain ⟨base, hfind⟩ := node?_eq_some_iff.mp hnode
    cases node with
    | file bytes =>
      obtain rfl : names = [] := by simpa [FileBelow, hnode] using h
      refine ⟨base, _, bytes, hfind, ?_⟩
      rw [Pathname.under_nil, List.append_nil, hfind]
    | folder entries =>
      have hfile : entries.HasFile names := by simpa [FileBelow, hnode] using h
      obtain ⟨trail, hbelow, rfl, hon⟩ := descend_folder (.start fs.top) hfind
      obtain ⟨bytes, hd⟩ := @descend_names names trail _ (hbelow.isNamed hnamed) hfile
      refine ⟨_, _, bytes, hfind, ?_⟩
      rw [find, partsFromTop_under, hon, hd]

/-- What stands below the place of a pathname is below that pathname. -/
theorem fileBelow_of_hasFile {base names : List Text} {node : FileNode}
    (hfind : fs.find root = .ok ⟨base, node⟩) (hfile : fs.top.HasFile (base ++ names)) :
    fs.FileBelow root names := by
  have hnode : fs.node? root = some node := node?_eq_some_iff.mpr ⟨base, hfind⟩
  cases node with
  | file bytes =>
    have hnames : names = [] :=
      Listing.eq_nil_of_contentAt?_append (contentAt?_of_find hfind) hfile
    simpa [FileBelow, hnode] using hnames
  | folder entries =>
    obtain ⟨trail, hbelow, rfl, -⟩ := descend_folder (.start fs.top) hfind
    rw [Listing.hasFile_iff_contentAt?, hbelow.contentAt?,
      ← Listing.hasFile_iff_contentAt?] at hfile
    simpa [FileBelow, hnode] using hfile

/-- Whether a pathname leads to the file at a place. -/
def leadsTo (fs : FileSystem) (place : List Text) (p : Pathname) : Bool :=
  match fs.read p with
  | .ok (path, _) => path == place
  | .error _ => false

theorem leadsTo_iff : fs.leadsTo place p = true ↔ ∃ bytes, fs.read p = .ok (place, bytes) := by
  rw [leadsTo]
  cases hread : fs.read p with
  | error e => simp
  | ok r =>
    obtain ⟨path, bytes⟩ := r
    simp

/-- What a walk visits can be read. -/
theorem Reaches.read (hnamed : fs.top.isNamed = true) (h : fs.Reaches selection root p) :
    ∃ place bytes, fs.read p = .ok (place, bytes) := by
  obtain ⟨names, hbelow, rfl, -⟩ := h
  obtain ⟨base, node, bytes, -, hfind⟩ := find_under hnamed hbelow
  exact ⟨_, bytes, read_of_find hnamed hfind⟩

/-- The pathname with which a walk from `root` on visits the file at a place, if it does: the file
is there or below, no pruned directory stands between the two, and the file is accepted. -/
def approach? (fs : FileSystem) (selection : FileSelection) (place : List Text) (root : Pathname) :
    Option Pathname :=
  match fs.find root with
  | .error _ => none
  | .ok d =>
    let names := place.drop d.path.length
    let p := root.under names
    if d.path.isPrefixOf place && selection.enters root names && selection.accepts p.text then
      some p
    else none

theorem approach?_eq_some_iff (hnamed : fs.top.isNamed = true) (hfile : fs.top.HasFile place) :
    fs.approach? selection place root = some p ↔
      fs.Reaches selection root p ∧ fs.leadsTo place p = true := by
  constructor
  · intro h
    rw [approach?] at h
    cases hfind : fs.find root with
    | error fault => simp [hfind] at h
    | ok d =>
      obtain ⟨base, node⟩ := d
      rw [hfind] at h
      dsimp only at h
      split at h
      · next hcond =>
        simp only [Bool.and_eq_true, List.isPrefixOf_iff_prefix] at hcond
        obtain ⟨⟨⟨names, rfl⟩, henters⟩, haccepts⟩ := hcond
        cases h
        rw [List.drop_left] at henters haccepts ⊢
        -- the rest of the place, as names below the root, leads to the file
        have hbelow := fileBelow_of_hasFile hfind hfile
        obtain ⟨base', node', bytes, hfind', hunder⟩ := find_under hnamed hbelow
        rw [hfind] at hfind'
        cases hfind'
        exact ⟨⟨names, hbelow, rfl, henters, haccepts⟩,
          leadsTo_iff.mpr ⟨bytes, read_of_find hnamed hunder⟩⟩
      · cases h
  · rintro ⟨⟨names, hbelow, rfl, henters, haccepts⟩, hleads⟩
    obtain ⟨base, node, bytes, hfind, hunder⟩ := find_under hnamed hbelow
    obtain ⟨bytes', hread⟩ := leadsTo_iff.mp hleads
    rw [read_of_find hnamed hunder] at hread
    cases hread
    simp [approach?, hfind, henters, haccepts]

/-- **Visits to a file**: a walk visits the file at a place once if it visits it at all. -/
theorem sourceFiles_filter_leadsTo (hnamed : fs.top.isNamed = true) (hfile : fs.top.HasFile place) :
    (fs.sourceFiles selection root).filter (fs.leadsTo place) =
      (fs.approach? selection place root).toList := by
  have hmem : ∀ p, p ∈ (fs.sourceFiles selection root).filter (fs.leadsTo place) ↔
      fs.approach? selection place root = some p := fun p => by
    rw [List.mem_filter, mem_sourceFiles_iff, approach?_eq_some_iff hnamed hfile]
  cases hroot : fs.approach? selection place root with
  | none =>
    refine List.eq_nil_iff_forall_not_mem.mpr fun p hp => ?_
    rw [hmem, hroot] at hp
    cases hp
  | some p =>
    refine List.perm_singleton.mp ?_
    refine (List.perm_ext_iff_of_nodup (nodup_sourceFiles.filter _) (List.nodup_singleton p)).mpr
      fun q => ?_
    rw [hmem, hroot, List.mem_singleton, Option.some.injEq, eq_comm]

end FileSystem
end SourceStamp
