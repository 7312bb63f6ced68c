import SourceStamp.Files.Stamping

/-!
# Writing to a file

Writing to a file that is there changes the content of that file and nothing else: every pathname
leads where it led (`FileSystem.read_putFile`).

- `Listing.HasFile`: a path leads to a file.
- `Listing.Rewritten`: a directory at some place, before and after the write. Directories above or
  beside the file are only rewritten along its path.
- `FileSystem.descend_into`, `descend_at_file` and the like: one step of the way down a pathname.
- `FileSystem.descend_rewritten`: the way down a pathname before and after the write.
-/

namespace SourceStamp

/-! ## Entries of a directory -/

namespace Listing

theorem get?_cons (name : Text) (node : FileNode) (rest : Listing) (n : Text) :
    (cons name node rest).get? n = if name = n then some node else rest.get? n := by
  cases node <;> rfl

theorem set_cons (m : Text) (old : FileNode) (rest : Listing) (name : Text) (node : FileNode) :
    (cons m old rest).set name node =
      if m = name then cons name node rest else cons m old (rest.set name node) := by
  cases old <;> rfl

theorem get?_set (l : Listing) (name : Text) (node : FileNode) (n : Text) :
    (l.set name node).get? n = if name = n then some node else l.get? n := by
  have step : ∀ (m : Text) (old : FileNode) (rest : Listing),
      (rest.set name node).get? n = (if name = n then some node else rest.get? n) →
      ((cons m old rest).set name node).get? n =
        if name = n then some node else (cons m old rest).get? n := by
    intro m old rest ih
    rw [set_cons, get?_cons]
    by_cases hm : m = name
    · subst hm
      rw [if_pos rfl, get?_cons]
      split <;> rfl
    · rw [if_neg hm, get?_cons, ih]
      by_cases hn : m = n
      · rw [if_pos hn, if_pos hn, if_neg (fun h => hm (hn.trans h.symm))]
      · rw [if_neg hn, if_neg hn]
  induction l with
  | nil => exact get?_cons ..
  | file m bytes rest ih => exact step m (.file bytes) rest ih
  | folder m entries rest _ ih => exact step m (.folder entries) rest ih

@[simp] theorem putFile_singleton (l : Listing) (name : Text) (bytes : Bytes) :
    l.putFile [name] bytes = l.set name (.file bytes) := rfl

theorem putFile_cons (l : Listing) (name : Text) {path : List Text} (h : path ≠ [])
    (bytes : Bytes) :
    l.putFile (name :: path) bytes =
      l.set name (.folder ((l.folderAt name).putFile path bytes)) := by
  obtain ⟨part, rest, rfl⟩ := List.exists_cons_of_ne_nil h
  rw [putFile, putFile, List.getLast?_cons_cons, List.dropLast_cons_cons]
  cases hlast : (part :: rest).getLast? with
  | none => simp at hlast
  | some last => rfl

/-- A path of the names of directories and, at its end, of a file. -/
def HasFile : Listing → List Text → Prop
  | _, [] => False
  | l, [name] => ∃ bytes, l.get? name = some (.file bytes)
  | l, name :: rest => ∃ below, l.get? name = some (.folder below) ∧ below.HasFile rest

theorem HasFile.ne_nil {l : Listing} {path : List Text} (h : l.HasFile path) : path ≠ [] := by
  rintro rfl
  exact h

theorem hasFile_cons_iff {l : Listing} {name : Text} {rest : List Text} (hrest : rest ≠ []) :
    l.HasFile (name :: rest) ↔
      ∃ below, l.get? name = some (.folder below) ∧ below.HasFile rest := by
  obtain ⟨part, rest, rfl⟩ := List.exists_cons_of_ne_nil hrest
  exact Iff.rfl

/-- Writing to a file leaves the entries that the path to it does not go through. -/
theorem get?_putFile_of_ne (l : Listing) {part name : Text} (hname : part ≠ name)
    (rest : List Text) (bytes : Bytes) :
    (l.putFile (part :: rest) bytes).get? name = l.get? name := by
  by_cases hrest : rest = []
  · rw [hrest, putFile_singleton, get?_set, if_neg hname]
  · rw [putFile_cons _ _ hrest, get?_set, if_neg hname]

/-- In a directory that it does go through, the file is written there. -/
theorem get?_putFile_folder {l below : Listing} {name : Text} {rest : List Text}
    (hget : l.get? name = some (.folder below)) (hfile : l.HasFile (name :: rest)) (bytes : Bytes) :
    below.HasFile rest ∧
      (l.putFile (name :: rest) bytes).get? name = some (.folder (below.putFile rest bytes)) := by
  have hrest : rest ≠ [] := by
    rintro rfl
    obtain ⟨_, hfile⟩ := hfile
    rw [hget] at hfile
    cases hfile
  obtain ⟨below', hget', hbelow⟩ := (hasFile_cons_iff hrest).mp hfile
  obtain rfl : below = below' := by
    rw [hget] at hget'
    injections
  refine ⟨hbelow, ?_⟩
  rw [putFile_cons _ _ hrest, get?_set, if_pos rfl, folderAt, hget]

/-- A directory at `place` before and after the file at `path` is written: on the way to the file it
is rewritten along the rest of the path, elsewhere it stays as it is. -/
structure Rewritten (path : List Text) (bytes : Bytes) (place : List Text) (l l' : Listing) :
    Prop where
  onPath : ∀ rest, path = place ++ rest → l.HasFile rest ∧ l' = l.putFile rest bytes
  offPath : ¬ place <+: path → l' = l

namespace Rewritten

variable {path place : List Text} {bytes : Bytes} {l l' : Listing} {name : Text}

/-- The topmost directory. -/
theorem putFile (h : l.HasFile path) : Rewritten path bytes [] l (l.putFile path bytes) where
  onPath rest hrest := by
    obtain rfl : path = rest := hrest
    exact ⟨h, rfl⟩
  offPath hne := absurd List.nil_prefix hne

/-- The directory stays as it is, or lies on the way to the file and is rewritten. -/
theorem cases_prefix (h : Rewritten path bytes place l l') :
    (¬ place <+: path ∧ l' = l) ∨ ∃ part rest, path = place ++ part :: rest ∧
      l.HasFile (part :: rest) ∧ l' = l.putFile (part :: rest) bytes := by
  by_cases hplace : place <+: path
  · obtain ⟨rest, rfl⟩ := hplace
    obtain ⟨hfile, rfl⟩ := h.onPath rest rfl
    obtain ⟨part, rest, rfl⟩ := List.exists_cons_of_ne_nil hfile.ne_nil
    exact .inr ⟨part, rest, rfl, hfile, rfl⟩
  · exact .inl ⟨hplace, h.offPath hplace⟩

/-- A directory in a directory. -/
theorem folder (h : Rewritten path bytes place l l') {below : Listing}
    (hget : l.get? name = some (.folder below)) :
    ∃ below', l'.get? name = some (.folder below') ∧
      Rewritten path bytes (place ++ [name]) below below' := by
  rcases h.cases_prefix with ⟨hplace, rfl⟩ | ⟨part, rest, rfl, hfile, rfl⟩
  · have hoff : ¬ place ++ [name] <+: path := fun hprefix =>
      hplace ((List.prefix_append place [name]).trans hprefix)
    exact ⟨below, hget, fun rest heq => absurd ⟨rest, heq.symm⟩ hoff, fun _ => rfl⟩
  · by_cases hname : part = name
    · -- the way to the file goes on here
      subst hname
      obtain ⟨hbelow, hget'⟩ := get?_putFile_folder hget hfile bytes
      refine ⟨below.putFile rest bytes, hget', ?_, ?_⟩
      · intro rest' heq
        rw [List.append_assoc] at heq
        obtain rfl : rest = rest' := (List.cons.inj (List.append_cancel_left heq)).2
        exact ⟨hbelow, rfl⟩
      · intro hoff
        exact absurd ⟨rest, by simp⟩ hoff
    · -- the way to the file leaves the directory elsewhere
      have hother : ¬ place ++ [name] <+: place ++ part :: rest := by
        rintro ⟨rest', heq⟩
        rw [List.append_assoc] at heq
        exact hname (List.cons.inj (List.append_cancel_left heq)).1.symm
      refine ⟨below, ?_, fun rest' heq => absurd ⟨rest', heq.symm⟩ hother, fun _ => rfl⟩
      rw [get?_putFile_of_ne _ hname, hget]

/-- A file in a directory: the one that is written has the new content. -/
theorem file (h : Rewritten path bytes place l l') {content : Bytes}
    (hget : l.get? name = some (.file content)) :
    l'.get? name = some (.file (if place ++ [name] = path then bytes else content)) := by
  rcases h.cases_prefix with ⟨hplace, rfl⟩ | ⟨part, rest, rfl, hfile, rfl⟩
  · rw [hget, if_neg]
    rintro rfl
    exact hplace (List.prefix_append place [name])
  · by_cases hname : part = name
    · subst hname
      have hrest : rest = [] := by
        refine Classical.byContradiction ?_
        intro hrest
        obtain ⟨below, hbelow, -⟩ := (hasFile_cons_iff hrest).mp hfile
        rw [hget] at hbelow
        cases hbelow
      rw [hrest, putFile_singleton, get?_set, if_pos rfl, if_pos rfl]
    · rw [get?_putFile_of_ne _ hname, hget, if_neg]
      exact fun heq => hname (List.cons.inj (List.append_cancel_left heq)).1.symm

end Rewritten
end Listing

/-! ## The way down a pathname -/

namespace FileSystem

/-- The path from the topmost directory to the directory of a trail. -/
def placeOf (trail : List (Text × Listing)) : List Text := (trail.map (·.1)).reverse

theorem placeOf_cons (name : Text) (l : Listing) (trail : List (Text × Listing)) :
    placeOf ((name, l) :: trail) = placeOf trail ++ [name] := by
  simp [placeOf]

section Steps

variable {trail : List (Text × Listing)} {l : Listing} {part : Text}

theorem descend_above (l : Listing) (rest : List Text) :
    descend [] l (Pathname.above :: rest) = descend [] l rest := by
  conv => lhs; unfold descend
  rw [if_pos rfl]

theorem descend_above_cons (step : Text × Listing) (trail : List (Text × Listing)) (l : Listing)
    (rest : List Text) :
    descend (step :: trail) l (Pathname.above :: rest) = descend trail step.2 rest := by
  conv => lhs; unfold descend
  rw [if_pos rfl]

theorem descend_missing (hpart : part ≠ Pathname.above) (hget : l.get? part = none)
    (rest : List Text) : descend trail l (part :: rest) = .error .missing := by
  unfold descend
  rw [if_neg hpart, hget]

theorem descend_into {below : Listing} (hpart : part ≠ Pathname.above)
    (hget : l.get? part = some (.folder below)) (rest : List Text) :
    descend trail l (part :: rest) = descend ((part, l) :: trail) below rest := by
  conv => lhs; unfold descend
  rw [if_neg hpart, hget]

theorem descend_at_file {bytes : Bytes} (hpart : part ≠ Pathname.above)
    (hget : l.get? part = some (.file bytes)) :
    descend trail l [part] = .ok ⟨placeOf trail ++ [part], .file bytes⟩ := by
  unfold descend
  rw [if_neg hpart, hget]
  simp [placeOf]

theorem descend_past_file {bytes : Bytes} (hpart : part ≠ Pathname.above)
    (hget : l.get? part = some (.file bytes)) {rest : List Text} (hrest : rest ≠ []) :
    descend trail l (part :: rest) = .error .notADirectory := by
  unfold descend
  rw [if_neg hpart, hget]
  exact if_neg (mt List.isEmpty_iff.mp hrest)

end Steps

/-- The directory `l` at the end of a trail lies below the topmost one. -/
def Below (top : Listing) : List (Text × Listing) → Listing → Prop
  | [], l => l = top
  | (name, parent) :: trail, l => parent.get? name = some (.folder l) ∧ Below top trail parent

theorem Below.hasFile {top : Listing} {trail : List (Text × Listing)} {l : Listing}
    (h : Below top trail l) {rest : List Text} (hfile : l.HasFile rest) :
    top.HasFile (placeOf trail ++ rest) := by
  induction trail generalizing l rest with
  | nil =>
    obtain rfl : l = top := h
    exact hfile
  | cons step trail ih =>
    obtain ⟨name, parent⟩ := step
    obtain ⟨hget, habove⟩ := h
    rw [placeOf_cons, List.append_assoc]
    exact ih habove ((Listing.hasFile_cons_iff hfile.ne_nil).mpr ⟨l, hget, hfile⟩)

/-- A pathname that leads to a file has a path of directories to it. -/
theorem hasFile_of_descend {top : Listing} {parts : List Text} {trail : List (Text × Listing)}
    {l : Listing} (h : Below top trail l) {found : List Text} {content : Bytes}
    (hd : descend trail l parts = .ok ⟨found, .file content⟩) : top.HasFile found := by
  fun_induction descend trail l parts with
  | case1 trail l => cases hd
  | case2 l rest ih => exact ih h hd
  | case3 l rest name parent trail ih => exact ih h.2 hd
  | case4 => cases hd
  | case5 trail l part rest _ below hget ih => exact ih ⟨hget, h⟩ hd
  | case6 trail l part rest _ _ hget _ =>
    cases hd
    have hplace : (part :: trail.map (·.1)).reverse = placeOf trail ++ [part] := by
      simp [placeOf]
    rw [hplace]
    exact h.hasFile ⟨content, hget⟩
  | case7 => cases hd

/-- Two trails of the same names, through directories before and after a write. -/
inductive Rewritten (path : List Text) (bytes : Bytes) :
    List (Text × Listing) → List (Text × Listing) → Prop
  | nil : Rewritten path bytes [] []
  | cons {trail trail' : List (Text × Listing)} {l l' : Listing} (name : Text)
      (h : Rewritten path bytes trail trail')
      (hl : Listing.Rewritten path bytes (placeOf trail) l l') :
      Rewritten path bytes ((name, l) :: trail) ((name, l') :: trail')

theorem Rewritten.placeOf_eq {path : List Text} {bytes : Bytes}
    {trail trail' : List (Text × Listing)} (h : Rewritten path bytes trail trail') :
    placeOf trail' = placeOf trail := by
  induction h with
  | nil => rfl
  | cons name _ _ ih => rw [placeOf_cons, placeOf_cons, ih]

/-- After a write every pathname leads where it led, and the written file has the new content. -/
theorem descend_rewritten {path : List Text} {bytes : Bytes} {parts : List Text}
    {trail trail' : List (Text × Listing)} {l l' : Listing}
    (htrail : Rewritten path bytes trail trail')
    (hl : Listing.Rewritten path bytes (placeOf trail) l l') {found : List Text} {content : Bytes}
    (hd : descend trail l parts = .ok ⟨found, .file content⟩) :
    descend trail' l' parts = .ok ⟨found, .file (if found = path then bytes else content)⟩ := by
  fun_induction descend trail l parts generalizing trail' l' with
  | case1 trail l => cases hd
  | case2 l rest ih =>
    cases htrail
    rw [descend_above]
    exact ih .nil hl hd
  | case3 l rest name parent trail ih =>
    cases htrail with
    | cons _ habove hparent =>
      rw [descend_above_cons]
      exact ih habove hparent hd
  | case4 => cases hd
  | case5 trail l part rest hpart below hget ih =>
    obtain ⟨below', hget', hbelow⟩ := hl.folder hget
    rw [descend_into hpart hget']
    exact ih (htrail.cons part hl) (placeOf_cons part l trail ▸ hbelow) hd
  | case6 trail l part rest hpart _ hget hrest =>
    cases hd
    obtain rfl := List.isEmpty_iff.mp hrest
    rw [descend_at_file hpart (hl.file hget), htrail.placeOf_eq, ← placeOf_cons part l trail]
    rfl
  | case7 => cases hd

theorem read_eq_ok_iff {fs : FileSystem} {p : Pathname} {path : List Text} {bytes : Bytes} :
    fs.read p = .ok (path, bytes) ↔
      p.parts.any (·.contains '\x00') = false ∧ fs.find p = .ok ⟨path, .file bytes⟩ := by
  rw [read]
  by_cases h : p.parts.any (·.contains '\x00') = true
  · rw [if_pos h, h]
    simp
  · rw [if_neg h, Bool.eq_false_iff.mpr h]
    rcases hfind : fs.find p with fault | ⟨found, node⟩
    · cases fault <;> simp
    · cases node <;> simp

/-- **Writing a file**: the file that is written has the new content, and every other file the one
it had. -/
theorem read_putFile {fs : FileSystem} {p q : Pathname} {path found : List Text}
    {old content : Bytes} (hp : fs.read p = .ok (path, old)) (hq : fs.read q = .ok (found, content))
    (bytes : Bytes) :
    (fs.putFile path bytes).read q =
      .ok (found, if found = path then bytes else content) := by
  rw [read_eq_ok_iff] at hp hq ⊢
  have htop : Below fs.top [] fs.top := rfl
  have hfile : fs.top.HasFile path := hasFile_of_descend htop hp.2
  exact ⟨hq.1, descend_rewritten .nil (.putFile hfile) hq.2⟩

end FileSystem
end SourceStamp
