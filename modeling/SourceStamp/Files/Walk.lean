import SourceStamp.Files.Selection
import SourceStamp.Files.Tree

/-!
# Walking directories

- `Listing.walk`: the accepted files of a directory in the order of a walk: first its own files by
  name, then those below each of its directories by name. Pruned directories are not entered.
- `FileSystem.sourceFiles`: the accepted files below a pathname.
-/

namespace SourceStamp

/-- Ascending order of name, for names with something attached. -/
def sortedByName {α : Type} (named : List (Text × α)) : List (Text × α) :=
  named.mergeSort fun a b => Text.isAtMost a.1 b.1

namespace Listing

/-- The names of the files of a directory, without those below it. -/
def fileNames : Listing → List Text
  | nil => []
  | file name _ rest => name :: rest.fileNames
  | folder _ _ rest => rest.fileNames

/-- The accepted files of the directory at a pathname, by name. -/
def acceptedFiles (selection : FileSelection) (directory : Pathname) (l : Listing) :
    List Pathname :=
  ((Text.sorted l.fileNames).map directory.child).filter (selection.accepts ·.text)

/-- For each directory of a listing that is not pruned, the walk below it. -/
def walksBelow (selection : FileSelection) (directory : Pathname) :
    Listing → List (Text × List Pathname)
  | nil => []
  | file _ _ rest => walksBelow selection directory rest
  | folder name entries rest =>
    let path := directory.child name
    if selection.prunes path.text then walksBelow selection directory rest
    else
      (name, acceptedFiles selection path entries ++
          (sortedByName (walksBelow selection path entries)).flatMap (·.2)) ::
        walksBelow selection directory rest

/-- The accepted files of the directory at a pathname and of the directories below it. -/
def walk (selection : FileSelection) (directory : Pathname) (l : Listing) : List Pathname :=
  acceptedFiles selection directory l ++
    (sortedByName (walksBelow selection directory l)).flatMap (·.2)

end Listing

/-- The accepted files below a pathname (`iter_source_files`). A file is below itself; where the
pathname leads nowhere there is none. -/
def FileSystem.sourceFiles (fs : FileSystem) (selection : FileSelection) (p : Pathname) :
    List Pathname :=
  match fs.node? p with
  | none => []
  | some (.file _) => if selection.accepts p.text then [p] else []
  | some (.folder entries) => entries.walk selection p

end SourceStamp
