import SourceStamp.Files.Encoding
import SourceStamp.Files.Pathname

/-!
# Files and directories

- `Listing`: the entries of a directory, with the directories below it.
- `Listing.get?`, `Listing.set`, `Listing.update`: one entry looked up or set, and a directory
  changed.
- `Listing.files`: every file of a listing with its path.
- `FileSystem`: a listing in which no directory holds a name twice, with a working directory.
- `FileSystem.find`: where a pathname leads.

There are files with bytes, and directories. There are no links, and no permissions: every file can
be read and written, and every directory listed. Nobody else changes the files meanwhile.
-/

namespace SourceStamp

/-- The entries of a directory, in the order in which they are listed. -/
inductive Listing where
  /-- No entry. -/
  | nil
  /-- A file, and the entries after it. -/
  | file (name : Text) (bytes : Bytes) (rest : Listing)
  /-- A directory with its own entries, and the entries after it. -/
  | folder (name : Text) (entries : Listing) (rest : Listing)
  deriving DecidableEq, Repr

/-- What a name of a directory stands for. -/
inductive FileNode where
  /-- A file with its content. -/
  | file (bytes : Bytes)
  /-- A directory with its entries. -/
  | folder (entries : Listing)
  deriving DecidableEq, Repr

namespace Listing

/-- The names of the entries. -/
def names : Listing → List Text
  | nil => []
  | file name _ rest => name :: rest.names
  | folder name _ rest => name :: rest.names

/-- What a name stands for. -/
def get? : Listing → Text → Option FileNode
  | nil, _ => none
  | file n bytes rest, name => if n = name then some (.file bytes) else rest.get? name
  | folder n entries rest, name => if n = name then some (.folder entries) else rest.get? name

/-- The listing that starts with an entry. -/
def cons (name : Text) (node : FileNode) (rest : Listing) : Listing :=
  match node with
  | .file bytes => file name bytes rest
  | .folder entries => folder name entries rest

/-- Sets what a name stands for. The entry stays in its place; a new one comes last. -/
def set : Listing → Text → FileNode → Listing
  | nil, name, node => cons name node nil
  | file n bytes rest, name, node =>
    if n = name then cons name node rest else file n bytes (rest.set name node)
  | folder n entries rest, name, node =>
    if n = name then cons name node rest else folder n entries (rest.set name node)

/-- The entries of the directory of a name; none if there is no such directory. -/
def folderAt (l : Listing) (name : Text) : Listing :=
  match l.get? name with
  | some (.folder entries) => entries
  | _ => nil

/-- Changes the entries of the directory at a path, which is made where it is missing. -/
def update (l : Listing) (path : List Text) (change : Listing → Listing) : Listing :=
  match path with
  | [] => change l
  | name :: rest => l.set name (.folder ((l.folderAt name).update rest change))

/-- Sets the content of the file at a path; its directories are made where they are missing. -/
def putFile (l : Listing) (path : List Text) (bytes : Bytes) : Listing :=
  match path.getLast? with
  | none => l
  | some name => l.update path.dropLast (·.set name (.file bytes))

/-- Makes the directory at a path where it is missing. -/
def makeFolder (l : Listing) (path : List Text) : Listing := l.update path id

/-- Every file with its path from a directory at `path` on, in the order of the listing. -/
def filesBelow (path : List Text) : Listing → List (List Text × Bytes)
  | nil => []
  | file name bytes rest => (path ++ [name], bytes) :: filesBelow path rest
  | folder name entries rest => filesBelow (path ++ [name]) entries ++ filesBelow path rest

/-- Every file with its path. -/
def files (l : Listing) : List (List Text × Bytes) := filesBelow [] l

/-- No directory holds a name twice. -/
def Distinct : Listing → Prop
  | nil => True
  | file name _ rest => name ∉ rest.names ∧ rest.Distinct
  | folder name entries rest => name ∉ rest.names ∧ entries.Distinct ∧ rest.Distinct

end Listing

/-- No directory of a node holds a name twice. -/
def FileNode.Distinct : FileNode → Prop
  | file _ => True
  | folder entries => entries.Distinct

namespace Listing

@[simp] theorem distinct_nil : nil.Distinct := trivial

@[simp] theorem names_cons (name : Text) (node : FileNode) (rest : Listing) :
    (cons name node rest).names = name :: rest.names := by
  cases node <;> rfl

theorem distinct_cons {name : Text} {node : FileNode} {rest : Listing} :
    (cons name node rest).Distinct ↔ name ∉ rest.names ∧ node.Distinct ∧ rest.Distinct := by
  cases node <;> simp [cons, Distinct, FileNode.Distinct]

theorem mem_names_set {l : Listing} {name : Text} {node : FileNode} {n : Text} :
    n ∈ (l.set name node).names ↔ n = name ∨ n ∈ l.names := by
  induction l with
  | nil => simp [set, names]
  | file m bytes rest ih => grind [set, names, names_cons]
  | folder m entries rest _ ih => grind [set, names, names_cons]

theorem Distinct.set {l : Listing} {name : Text} {node : FileNode} (h : l.Distinct)
    (hn : node.Distinct) : (l.set name node).Distinct := by
  induction l with
  | nil => exact distinct_cons.2 ⟨by simp [names], hn, trivial⟩
  | file m bytes rest ih =>
    unfold Listing.set
    split
    · next e => exact distinct_cons.2 ⟨e ▸ h.1, hn, h.2⟩
    · next e => exact ⟨fun hm => (mem_names_set.1 hm).elim e h.1, ih h.2⟩
  | folder m entries rest _ ih =>
    unfold Listing.set
    split
    · next e => exact distinct_cons.2 ⟨e ▸ h.1, hn, h.2.2⟩
    · next e => exact ⟨fun hm => (mem_names_set.1 hm).elim e h.1, h.2.1, ih h.2.2⟩

theorem Distinct.get? {l : Listing} {name : Text} {node : FileNode} (h : l.Distinct)
    (hg : l.get? name = some node) : node.Distinct := by
  induction l with
  | nil => simp [Listing.get?] at hg
  | file m bytes rest ih =>
    unfold Listing.get? at hg
    split at hg
    · cases hg; trivial
    · exact ih h.2 hg
  | folder m entries rest _ ih =>
    unfold Listing.get? at hg
    split at hg
    · cases hg; exact h.2.1
    · exact ih h.2.2 hg

theorem Distinct.folderAt {l : Listing} (h : l.Distinct) (name : Text) :
    (l.folderAt name).Distinct := by
  unfold Listing.folderAt
  split
  · next hg => exact h.get? hg
  · trivial

theorem Distinct.update {l : Listing} {path : List Text} {change : Listing → Listing}
    (h : l.Distinct) (hc : ∀ l : Listing, l.Distinct → (change l).Distinct) :
    (l.update path change).Distinct := by
  induction path generalizing l with
  | nil => exact hc l h
  | cons name rest ih => exact h.set (ih (h.folderAt name))

theorem Distinct.putFile {l : Listing} (h : l.Distinct) (path : List Text) (bytes : Bytes) :
    (l.putFile path bytes).Distinct := by
  unfold Listing.putFile
  split
  · exact h
  · exact h.update fun _ hl => hl.set trivial

theorem Distinct.makeFolder {l : Listing} (h : l.Distinct) (path : List Text) :
    (l.makeFolder path).Distinct :=
  h.update fun _ hl => hl

end Listing

/-- The files that there are, with a working directory. -/
structure FileSystem where
  /-- The entries of the topmost directory. -/
  top : Listing
  /-- The path of the working directory. -/
  working : List Text
  /-- No directory holds a name twice. -/
  distinct : top.Distinct

/-- Why a pathname leads nowhere. -/
inductive PathFault where
  /-- A part of it stands for nothing. -/
  | missing
  /-- It goes on after a file. -/
  | notADirectory
  deriving DecidableEq, Repr

/-- Where a pathname leads. -/
structure Destination where
  /-- The path from the topmost directory on, without `..`. -/
  path : List Text
  /-- What stands there. -/
  node : FileNode
  deriving DecidableEq, Repr

namespace FileSystem

/-- No file, and a working directory at a path. -/
def empty (working : List Text) : FileSystem where
  top := Listing.nil.makeFolder working
  working := working
  distinct := Listing.distinct_nil.makeFolder working

/-- Where parts lead from a directory. The trail holds the directories above it with the names that
led on from them, the nearest one first. Above the topmost directory is that directory itself. -/
def descend (trail : List (Text × Listing)) (entries : Listing) :
    List Text → Except PathFault Destination
  | [] => .ok ⟨(trail.map (·.1)).reverse, .folder entries⟩
  | part :: rest =>
    if part = Pathname.above then
      match trail with
      -- nothing lies above the topmost directory
      | [] => descend [] entries rest
      | (_, parent) :: trail => descend trail parent rest
    else
      match entries.get? part with
      | none => .error .missing
      | some (.folder below) => descend ((part, entries) :: trail) below rest
      | some (.file bytes) =>
        if rest.isEmpty then .ok ⟨(part :: trail.map (·.1)).reverse, .file bytes⟩
        else .error .notADirectory

/-- The parts that lead from the topmost directory to a pathname. -/
def partsFromTop (fs : FileSystem) (p : Pathname) : List Text :=
  if p.isAbsolute then p.parts else fs.working ++ p.parts

/-- Where a pathname leads. -/
def find (fs : FileSystem) (p : Pathname) : Except PathFault Destination :=
  descend [] fs.top (fs.partsFromTop p)

/-- What a pathname stands for, if it leads somewhere. -/
def node? (fs : FileSystem) (p : Pathname) : Option FileNode :=
  match fs.find p with
  | .ok d => some d.node
  | .error _ => none

/-- Whether a pathname leads somewhere. -/
def has (fs : FileSystem) (p : Pathname) : Bool := (fs.node? p).isSome

/-- Whether a pathname leads to a file. -/
def isFile (fs : FileSystem) (p : Pathname) : Bool :=
  match fs.node? p with
  | some (.file _) => true
  | _ => false

/-- The bytes of the file at a pathname, if it leads to one. -/
def bytes? (fs : FileSystem) (p : Pathname) : Option Bytes :=
  match fs.node? p with
  | some (.file bytes) => some bytes
  | _ => none

/-- Sets the content of the file at a path from the topmost directory on. -/
def putFile (fs : FileSystem) (path : List Text) (bytes : Bytes) : FileSystem where
  top := fs.top.putFile path bytes
  working := fs.working
  distinct := fs.distinct.putFile path bytes

/-- Makes the directory at a path from the topmost directory on where it is missing. -/
def makeFolder (fs : FileSystem) (path : List Text) : FileSystem where
  top := fs.top.makeFolder path
  working := fs.working
  distinct := fs.distinct.makeFolder path

/-- The files whose content differs between two file systems, with their content in the second. -/
def changes (before after : FileSystem) : List (List Text × Bytes) :=
  after.top.files.filter fun f => !before.top.files.contains f

end FileSystem
end SourceStamp
