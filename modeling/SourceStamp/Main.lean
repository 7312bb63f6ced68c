import SourceStamp.Command.Run

/-!
# The program

Reads the files that a command line names, runs it on them, prints what there is to print, and
writes back the files that changed.
-/

namespace SourceStamp

/-- Adds what stands at a path of the disk: a file with its content, or a directory with all below
it that the selection does not prune. The content of files that the selection does not accept is
left out. Links to directories are not followed below the starting point. -/
partial def loadNode (selection : Option FileSelection) (shown : Pathname) (path : List Text)
    (fs : FileSystem) : IO FileSystem := do
  let place := (← IO.currentDir) / String.ofList ('/' :: Text.join ['/'] path)
  if !(← place.pathExists) then return fs
  if ← place.isDir then
    let mut files := fs.makeFolder path
    for item in ← place.readDir do
      let name := item.fileName.toList
      let child := shown.child name
      let isLink := (← item.path.symlinkMetadata).type matches .symlink
      let isFolder ← item.path.isDir
      let isPruned := isFolder && (isLink || selection.any (·.prunes child.text))
      if selection.isSome && !isPruned then
        files ← loadNode selection child (path ++ [name]) files
    return files
  if selection.all (·.accepts shown.text) then
    return fs.putFile path (← IO.FS.readBinFile place).toList
  return fs.putFile path []

/-- The path of a pathname from the topmost directory on, each `..` taken back with the part before
it. -/
def plainParts (parts : List Text) : List Text :=
  parts.foldl (fun path part => if part = Pathname.above then path.dropLast else path ++ [part]) []

/-- The files that an invocation names, and those below them. -/
def loadFiles (i : Invocation) : IO FileSystem := do
  let working := (Pathname.ofText (← IO.currentDir).toString.toList).parts
  let (selection, named) : Option FileSelection × List Text :=
    match i with
    | .command _ (.transform paths selection _) => (some selection, paths)
    | .command _ (.parseStack (some file)) => (none, [file])
    | .command _ (.resolveStack (some file) _) => (none, [file])
    | _ => (none, [])
  let mut files := FileSystem.empty working
  for written in named do
    let p := Pathname.ofText written
    files ← loadNode selection p (plainParts (files.partsFromTop p)) files
  return files

/-- What comes from standard input, where the invocation takes its trace from there. -/
def readInput : Invocation → IO Bytes
  | .command _ (.parseStack file) => readUnless file
  | .command _ (.resolveStack file _) => readUnless file
  | _ => return []
where
  /-- The bytes of standard input, unless a file is named. -/
  readUnless (file : Option Text) : IO Bytes := do
    if file.all (· == ['-']) then return (← (← IO.getStdin).readBinToEnd).toList
    return []

/-- The directories of this machine: the one of the program, and that of the libraries beside it in
the place of an interpreter's modules. -/
def machineDirectories : IO InternalDirectories := do
  let here ← IO.appDir
  let libraries := here.parent.getD here / "lib"
  return ⟨(here.toString ++ "/").toList, (libraries.toString ++ "/").toList⟩

/-- Runs an invocation and returns the status of the program. -/
def perform (i : Invocation) : IO UInt32 := do
  let files ← loadFiles i
  match i.run (← machineDirectories) files (← readInput i) with
  | .error e =>
    IO.eprint (String.ofList (complaint "error".toList e.message))
    return UInt32.ofNat e.status
  | .ok o =>
    IO.print (String.ofList o.output)
    IO.eprint (String.ofList o.complaints)
    for (path, bytes) in files.changes o.files do
      IO.FS.writeBinFile (String.ofList ('/' :: Text.join ['/'] path)) bytes.toByteArray
    return UInt32.ofNat o.status

end SourceStamp

/-- The program. -/
def main (args : List String) : IO UInt32 := do
  match SourceStamp.Invocation.ofTexts (args.map String.toList) with
  | .ok i => SourceStamp.perform i
  | .error e =>
    IO.eprint (String.ofList (SourceStamp.complaint "error".toList e.message))
    return 2
