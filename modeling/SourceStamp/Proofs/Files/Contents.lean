import SourceStamp.Proofs.Files.Visits

/-!
# Files with other contents

What a walk visits depends on which files there are, not on what they hold.

- `Listing.filterMap`, `FileSystem.filterMap`: the files with other contents, without some of them.
- `FileSystem.find_filterMap_iff`: every pathname leads where it led, unless to a file left out.
- `FileSystem.sourceFiles_filterMap`: a walk visits what it visits else, without what is left out,
  and in the same order.
- `FileSystem.sourceFiles_visitedAll`: what is written meanwhile does not change what a walk visits.
- `FileSystem.textsOnly`: the files without those that are no texts.
-/

namespace SourceStamp

namespace Listing

/-- The entries with the contents that `f` gives to their files. A file to which it gives none is
left out; directories stay, also empty ones. -/
def filterMap (f : Bytes → Option Bytes) : Listing → Listing
  | nil => nil
  | file name bytes rest =>
    match f bytes with
    | some content => file name content (rest.filterMap f)
    | none => rest.filterMap f
  | folder name entries rest => folder name (entries.filterMap f) (rest.filterMap f)

end Listing

/-- What is left of an entry. -/
def FileNode.filterMap (f : Bytes → Option Bytes) : FileNode → Option FileNode
  | file bytes => (f bytes).map .file
  | folder entries => some (.folder (entries.filterMap f))

/-- What is left of a destination. -/
def Destination.filterMap (f : Bytes → Option Bytes) (d : Destination) : Option Destination :=
  (d.node.filterMap f).map (⟨d.path, ·⟩)

namespace Listing

variable {f : Bytes → Option Bytes} {l : Listing}

theorem names_filterMap_sublist (f : Bytes → Option Bytes) (l : Listing) :
    (l.filterMap f).names.Sublist l.names := by
  induction l with
  | nil => exact .slnil
  | file m bytes rest ih =>
    rw [filterMap]
    split
    · exact ih.cons_cons m
    · exact ih.cons m
  | folder m entries rest _ ih => exact ih.cons_cons m

theorem Distinct.filterMap (h : l.Distinct) (f : Bytes → Option Bytes) :
    (l.filterMap f).Distinct := by
  induction l with
  | nil => trivial
  | file m bytes rest ih =>
    rw [Listing.filterMap]
    split
    · exact ⟨fun hm => h.1 ((names_filterMap_sublist f rest).mem hm), ih h.2⟩
    · exact ih h.2
  | folder m entries rest ihe ih =>
    exact ⟨fun hm => h.1 ((names_filterMap_sublist f rest).mem hm), ihe h.2.1, ih h.2.2⟩

theorem isNamed_filterMap (h : l.isNamed = true) (f : Bytes → Option Bytes) :
    (l.filterMap f).isNamed = true := by
  induction l with
  | nil => rfl
  | file m bytes rest ih => grind [filterMap, isNamed]
  | folder m entries rest ihe ih => grind [filterMap, isNamed]

theorem get?_filterMap (h : l.Distinct) (f : Bytes → Option Bytes) (name : Text) :
    (l.filterMap f).get? name = (l.get? name).bind (·.filterMap f) := by
  induction l with
  | nil => rfl
  | file m bytes rest ih =>
    by_cases hm : m = name
    · subst hm
      have hrest : (rest.filterMap f).get? m = none := by
        rw [Option.eq_none_iff_forall_ne_some]
        intro node hget
        exact h.1 ((names_filterMap_sublist f rest).mem (mem_names_of_get? hget))
      cases hf : f bytes <;> simp [filterMap, get?, hf, FileNode.filterMap, hrest]
    · cases hf : f bytes <;> simp [filterMap, get?, hf, hm, ih h.2]
  | folder m entries rest _ ih =>
    by_cases hm : m = name
    · simp [filterMap, get?, hm, FileNode.filterMap]
    · simp [filterMap, get?, hm, ih h.2.2]

theorem filterMap_cons (f : Bytes → Option Bytes) (name : Text) (node : FileNode)
    (rest : Listing) :
    (cons name node rest).filterMap f =
      match node.filterMap f with
      | some left => cons name left (rest.filterMap f)
      | none => rest.filterMap f := by
  cases node with
  | file bytes => cases hf : f bytes <;> simp [cons, filterMap, FileNode.filterMap, hf]
  | folder entries => rfl

/-- Setting an entry makes no difference where the same is left of it. -/
theorem filterMap_set {name : Text} {node node' : FileNode} (hget : l.get? name = some node)
    (hsame : node'.filterMap f = node.filterMap f) :
    (l.set name node').filterMap f = l.filterMap f := by
  have step : ∀ (m : Text) (old : FileNode) (rest : Listing),
      (rest.get? name = some node → (rest.set name node').filterMap f = rest.filterMap f) →
      (cons m old rest).get? name = some node →
      ((cons m old rest).set name node').filterMap f = (cons m old rest).filterMap f := by
    intro m old rest ih hget
    rw [get?_cons] at hget
    rw [set_cons, filterMap_cons]
    by_cases hm : m = name
    · rw [if_pos hm, Option.some.injEq] at hget
      rw [if_pos hm, filterMap_cons, hsame, hm, hget]
    · rw [if_neg hm] at hget ⊢
      rw [filterMap_cons, ih hget]
  induction l with
  | nil => cases hget
  | file m bytes rest ih => exact step m (.file bytes) rest ih hget
  | folder m entries rest _ ih => exact step m (.folder entries) rest ih hget

/-- Writing a file makes no difference where the same is left of its content. -/
theorem filterMap_putFile {path : List Text} {bytes content : Bytes}
    (hfile : l.contentAt? path = some bytes) (hsame : f content = f bytes) :
    (l.putFile path content).filterMap f = l.filterMap f := by
  induction path generalizing l with
  | nil => cases hfile
  | cons name rest ih =>
    by_cases hrest : rest = []
    · subst hrest
      cases hget : l.get? name with
      | none => simp [contentAt?, hget] at hfile
      | some node =>
        cases node with
        | folder below => simp [contentAt?, hget] at hfile
        | file old =>
          obtain rfl : old = bytes := by simpa [contentAt?, hget] using hfile
          exact filterMap_set hget (congrArg (Option.map FileNode.file) hsame)
    · obtain ⟨below, hget, -⟩ :=
        (hasFile_cons_iff hrest).mp (hasFile_iff_contentAt?.mpr ⟨bytes, hfile⟩)
      rw [contentAt?_folder hget] at hfile
      rw [putFile_cons _ _ hrest, folderAt, hget]
      refine filterMap_set hget ?_
      rw [FileNode.filterMap, FileNode.filterMap, ih hfile]

end Listing

namespace FileSystem

/-! ## Where pathnames lead -/

/-- The files with the contents that `f` gives to them. -/
def filterMap (fs : FileSystem) (f : Bytes → Option Bytes) : FileSystem where
  top := fs.top.filterMap f
  working := fs.working
  distinct := fs.distinct.filterMap f

variable {fs : FileSystem} {selection : FileSelection} {root p : Pathname}
  {place : List Text} {bytes content : Bytes} {f : Bytes → Option Bytes}

theorem descend_filterMap {top : Listing} (htop : top.Distinct) (f : Bytes → Option Bytes)
    {parts : List Text} {trail : List (Text × Listing)} {l : Listing} (h : Below top trail l) :
    (descend (trail.map fun step => (step.1, step.2.filterMap f)) (l.filterMap f) parts).toOption =
      (descend trail l parts).toOption.bind (·.filterMap f) := by
  have hnames : ∀ trail : List (Text × Listing),
      (trail.map fun step => (step.1, step.2.filterMap f)).map (·.1) = trail.map (·.1) := by simp
  have hleft : ∀ {trail : List (Text × Listing)} {l : Listing}, Below top trail l →
      ∀ {part : Text} {found : Option FileNode}, l.get? part = found →
      (l.filterMap f).get? part = found.bind (·.filterMap f) := fun h part _ hget =>
    hget ▸ Listing.get?_filterMap (h.distinct htop) f part
  fun_induction descend trail l parts with
  | case1 trail l =>
    rw [descend, hnames]
    rfl
  | case2 l rest ih =>
    rw [← ih h]
    exact congrArg Except.toOption (descend_above _ _)
  | case3 l rest name parent trail ih =>
    rw [← ih h.2]
    exact congrArg Except.toOption (descend_above_cons _ _ _ _)
  | case4 trail l part rest hpart hget =>
    rw [descend_missing hpart (hleft h hget)]
    rfl
  | case5 trail l part rest hpart below hget ih =>
    rw [← ih ⟨hget, h⟩, descend_into hpart (hleft h hget)]
    rfl
  | case6 trail l part rest hpart bytes hget hrest =>
    obtain rfl := List.isEmpty_iff.mp hrest
    have hget' := hleft h hget
    cases hf : f bytes with
    | none =>
      -- a file that is left out is missing
      rw [Option.bind_some, FileNode.filterMap, hf] at hget'
      rw [descend_missing hpart hget']
      simp [Except.toOption, Destination.filterMap, FileNode.filterMap, hf]
    | some content =>
      rw [Option.bind_some, FileNode.filterMap, hf] at hget'
      rw [descend_at_file hpart hget', placeOf, hnames]
      simp [Except.toOption, Destination.filterMap, FileNode.filterMap, hf]
  | case7 trail l part rest hpart bytes hget hrest =>
    have hget' := hleft h hget
    cases hf : f bytes with
    | none =>
      rw [Option.bind_some, FileNode.filterMap, hf] at hget'
      rw [descend_missing hpart hget']
      rfl
    | some content =>
      rw [Option.bind_some, FileNode.filterMap, hf] at hget'
      rw [descend_past_file hpart hget' (mt List.isEmpty_iff.mpr hrest)]
      rfl

/-- **Where pathnames lead**: where they led, unless to a file that is left out. -/
theorem find_filterMap_iff {d : Destination} :
    (fs.filterMap f).find p = .ok d ↔ ∃ d', fs.find p = .ok d' ∧ d'.filterMap f = some d := by
  have h : ((fs.filterMap f).find p).toOption = (fs.find p).toOption.bind (·.filterMap f) :=
    descend_filterMap fs.distinct f (.start fs.top)
  cases hfind' : (fs.filterMap f).find p with
  | error fault =>
    rw [hfind'] at h
    constructor
    · intro hd
      cases hd
    · rintro ⟨d', hfind, hd'⟩
      rw [hfind] at h
      have hnone : none = d'.filterMap f := h
      rw [hd'] at hnone
      cases hnone
  | ok d' =>
    rw [hfind'] at h
    cases hfind : fs.find p with
    | error fault =>
      rw [hfind] at h
      cases h
    | ok d'' =>
      rw [hfind] at h
      have hsome : some d' = d''.filterMap f := h
      simp [← hsome]

theorem find_filterMap_file_iff :
    (fs.filterMap f).find p = .ok ⟨place, .file content⟩ ↔
      ∃ bytes, fs.find p = .ok ⟨place, .file bytes⟩ ∧ f bytes = some content := by
  rw [find_filterMap_iff]
  constructor
  · rintro ⟨⟨place', node⟩, hfind, hd⟩
    cases node with
    | folder entries => simp [Destination.filterMap, FileNode.filterMap] at hd
    | file bytes =>
      simp only [Destination.filterMap, FileNode.filterMap, Option.map_map,
        Option.map_eq_some_iff, Function.comp_apply, Destination.mk.injEq,
        FileNode.file.injEq] at hd
      obtain ⟨content', hf, rfl, rfl⟩ := hd
      exact ⟨bytes, hfind, hf⟩
  · rintro ⟨bytes, hfind, hf⟩
    exact ⟨_, hfind, by simp [Destination.filterMap, FileNode.filterMap, hf]⟩

theorem read_filterMap (hread : fs.read p = .ok (place, bytes)) (hf : f bytes = some content) :
    (fs.filterMap f).read p = .ok (place, content) := by
  rw [read_eq_ok_iff] at hread ⊢
  exact ⟨hread.1, find_filterMap_file_iff.mpr ⟨bytes, hread.2, hf⟩⟩

/-! ## What a walk visits -/

theorem reaches_filterMap_iff (hnamed : fs.top.isNamed = true) :
    (fs.filterMap f).Reaches selection root p ↔
      fs.Reaches selection root p ∧
        ∃ place bytes, fs.read p = .ok (place, bytes) ∧ (f bytes).isSome = true := by
  constructor
  · rintro ⟨names, hbelow, rfl, henters, haccepts⟩
    obtain ⟨base, node, content, hroot, hfind⟩ :=
      find_under (Listing.isNamed_filterMap hnamed f : (fs.filterMap f).top.isNamed = true) hbelow
    obtain ⟨⟨base', node'⟩, hroot', hd⟩ := find_filterMap_iff.mp hroot
    obtain rfl : base' = base := by
      obtain ⟨left, -, hleft⟩ := Option.map_eq_some_iff.mp hd
      exact congrArg Destination.path hleft
    obtain ⟨bytes, hfind, hf⟩ := find_filterMap_file_iff.mp hfind
    have hfile : fs.top.HasFile (base' ++ names) :=
      Listing.hasFile_iff_contentAt?.mpr ⟨bytes, contentAt?_of_find hfind⟩
    exact ⟨⟨names, fileBelow_of_hasFile hroot' hfile, rfl, henters, haccepts⟩,
      _, bytes, read_of_find hnamed hfind, Option.isSome_iff_exists.mpr ⟨content, hf⟩⟩
  · rintro ⟨⟨names, hbelow, rfl, henters, haccepts⟩, place, bytes, hread, hf⟩
    obtain ⟨content, hf⟩ := Option.isSome_iff_exists.mp hf
    obtain ⟨base, node, bytes', hroot, hfind⟩ := find_under hnamed hbelow
    rw [read_of_find hnamed hfind] at hread
    cases hread
    have hfind' := find_filterMap_file_iff.mpr ⟨bytes, hfind, hf⟩
    have hfile : (fs.filterMap f).top.HasFile (base ++ names) :=
      Listing.hasFile_iff_contentAt?.mpr ⟨content, contentAt?_of_find hfind'⟩
    have hroot' : ∃ node', (fs.filterMap f).find root = .ok ⟨base, node'⟩ := by
      cases node with
      | folder entries => exact ⟨_, find_filterMap_iff.mpr ⟨_, hroot, rfl⟩⟩
      | file old =>
        -- the walk starts at the file itself
        have hnames : names = [] := Listing.eq_nil_of_contentAt?_append (contentAt?_of_find hroot)
          (Listing.hasFile_iff_contentAt?.mpr ⟨bytes, contentAt?_of_find hfind⟩)
        subst hnames
        rw [Pathname.under_nil] at hfind'
        exact ⟨_, by rwa [List.append_nil] at hfind'⟩
    obtain ⟨node', hroot'⟩ := hroot'
    exact ⟨names, fileBelow_of_hasFile hroot' hfile, rfl, henters, haccepts⟩

/-- **What a walk visits** among files with other contents: what it visits else, without the files
that are left out, in the same order. -/
theorem sourceFiles_filterMap (hnamed : fs.top.isNamed = true) (f : Bytes → Option Bytes)
    (selection : FileSelection) (root : Pathname) :
    (fs.filterMap f).sourceFiles selection root =
      (fs.sourceFiles selection root).filter (fs.holds fun bytes => (f bytes).isSome) := by
  refine sourceFiles_filter_eq _ fun p => ?_
  rw [reaches_filterMap_iff hnamed]
  refine and_congr_right fun _ => ?_
  rw [holds]
  cases hread : fs.read p with
  | error e => simp
  | ok r =>
    obtain ⟨place, bytes⟩ := r
    simp

/-! ## Walks while files are written -/

/-- The files that there are, all of them empty. -/
def emptied (fs : FileSystem) : FileSystem := fs.filterMap fun _ => some []

theorem isNamed_emptied (fs : FileSystem) : fs.emptied.top.isNamed = fs.top.isNamed := by
  have hlisting : ∀ l : Listing, (l.filterMap fun _ => some []).isNamed = l.isNamed := by
    intro l
    induction l with
    | nil => rfl
    | file m bytes rest ih => simp [Listing.filterMap, Listing.isNamed, ih]
    | folder m entries rest ihe ih => simp [Listing.filterMap, Listing.isNamed, ihe, ih]
  exact hlisting fs.top

theorem has_emptied (p : Pathname) : fs.emptied.has p = fs.has p := by
  have hleft : ∀ d : Destination, ∃ d', d.filterMap (fun _ => some []) = some d' := by
    rintro ⟨place, node⟩
    cases node <;> exact ⟨_, rfl⟩
  rw [Bool.eq_iff_iff]
  simp only [has, Option.isSome_iff_exists, node?_eq_some_iff, emptied, find_filterMap_iff]
  constructor
  · rintro ⟨node, place, ⟨place', node'⟩, hfind, -⟩
    exact ⟨node', place', hfind⟩
  · rintro ⟨node, place, hfind⟩
    obtain ⟨⟨place', node'⟩, hd⟩ := hleft ⟨place, node⟩
    exact ⟨node', place', _, hfind, hd⟩

theorem sourceFiles_emptied (hnamed : fs.top.isNamed = true) (selection : FileSelection)
    (root : Pathname) : fs.emptied.sourceFiles selection root = fs.sourceFiles selection root := by
  rw [emptied, sourceFiles_filterMap hnamed, List.filter_eq_self]
  intro p hp
  obtain ⟨place, bytes, hread⟩ := (mem_sourceFiles_iff.mp hp).read hnamed
  rw [holds_of_read hread]
  rfl

/-- A visit writes at most one file that is there. -/
theorem emptied_visited (hp : fs.CanRead p) (names : MonitoredNames) (write : Bool) :
    (fs.visited names write p).emptied = fs.emptied := by
  obtain ⟨⟨place, bytes⟩, hp⟩ := hp
  have hput : ∀ content, (fs.putFile place content).emptied = fs.emptied := by
    intro content
    have htop : (fs.top.putFile place content).filterMap (fun _ => some []) =
        fs.top.filterMap fun _ => some [] :=
      Listing.filterMap_putFile (contentAt?_of_read hp) rfl
    simp only [emptied, filterMap, putFile, htop]
  rw [visited]
  cases htext : textOf .utf8 bytes with
  | error e => rw [stampFile_of_error hp htext]
  | ok source =>
    rw [stampFile_of_text hp htext]
    dsimp only
    split
    · split
      · exact hput _
      · rfl
    · rfl

theorem emptied_visitedAll {ps : List Pathname} (hps : ∀ p ∈ ps, fs.CanRead p)
    (names : MonitoredNames) (write : Bool) :
    (fs.visitedAll names write ps).emptied = fs.emptied := by
  induction ps generalizing fs with
  | nil => rfl
  | cons p ps ih =>
    obtain ⟨hp, hps⟩ := List.forall_mem_cons.mp hps
    rw [visitedAll, List.foldl_cons]
    exact (ih fun q hq => canRead_visited hp (hps q hq)).trans (emptied_visited hp names write)

theorem has_visitedAll {ps : List Pathname} (hps : ∀ p ∈ ps, fs.CanRead p)
    (names : MonitoredNames) (write : Bool) (root : Pathname) :
    (fs.visitedAll names write ps).has root = fs.has root := by
  rw [← has_emptied, emptied_visitedAll hps, has_emptied]

/-- **What is written meanwhile** does not change what a walk visits. -/
theorem sourceFiles_visitedAll {ps : List Pathname} (hnamed : fs.top.isNamed = true)
    (hps : ∀ p ∈ ps, fs.CanRead p) (names : MonitoredNames) (write : Bool)
    (selection : FileSelection) (root : Pathname) :
    (fs.visitedAll names write ps).sourceFiles selection root =
      fs.sourceFiles selection root := by
  have hnamed' : (fs.visitedAll names write ps).top.isNamed = true := by
    rw [← isNamed_emptied, emptied_visitedAll hps, isNamed_emptied, hnamed]
  rw [← sourceFiles_emptied hnamed', emptied_visitedAll hps, sourceFiles_emptied hnamed]

/-! ## Texts -/

/-- The files that are texts, with all directories. -/
def textsOnly (fs : FileSystem) : FileSystem := fs.filterMap (Option.guard Encoding.isText)

theorem find_textsOnly_file :
    fs.textsOnly.find p = .ok ⟨place, .file bytes⟩ ↔
      fs.find p = .ok ⟨place, .file bytes⟩ ∧ Encoding.isText bytes = true := by
  simp [textsOnly, find_filterMap_file_iff, Option.guard_eq_some_iff, and_comm]

/-- A text is read as it was. -/
theorem read_textsOnly (hread : fs.read p = .ok (place, bytes))
    (htext : Encoding.isText bytes = true) : fs.textsOnly.read p = .ok (place, bytes) :=
  read_filterMap hread (Option.guard_eq_some_iff.mpr ⟨rfl, htext⟩)

theorem isNamed_textsOnly (hnamed : fs.top.isNamed = true) : fs.textsOnly.top.isNamed = true :=
  Listing.isNamed_filterMap hnamed _

/-- Among the texts only, a walk visits the texts that it visits else, in the same order. -/
theorem sourceFiles_textsOnly (hnamed : fs.top.isNamed = true) (selection : FileSelection)
    (root : Pathname) :
    fs.textsOnly.sourceFiles selection root =
      (fs.sourceFiles selection root).filter fs.holdsText := by
  rw [textsOnly, sourceFiles_filterMap hnamed]
  congr 1
  funext p
  rw [holdsText]
  congr 1
  funext bytes
  cases htext : Encoding.isText bytes <;> simp [Option.guard, htext]

end FileSystem
end SourceStamp
