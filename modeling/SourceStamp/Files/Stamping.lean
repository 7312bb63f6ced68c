import SourceStamp.Files.Walk
import SourceStamp.Stamping

/-!
# Stamping files

- `FileError`: why a file cannot be read or written, and how the error reads.
- `FileSystem.readText`: the text of a file. Its line ends come in their universal form.
- `FileSystem.stampFile`: a file stamped, and written back if that is asked for and it changed.
- `FileSystem.stampAll`: the accepted files below a pathname stamped one after the other, up to
  the first that fails.
-/

namespace SourceStamp

/-- Why a file cannot be read or written. -/
inductive FileError where
  /-- Nothing is there. -/
  | missing (path : Pathname)
  /-- The pathname goes on after a file. -/
  | notADirectory (path : Pathname)
  /-- A directory is there. -/
  | isADirectory (path : Pathname)
  /-- A null character stands in the pathname. -/
  | nullInPathname
  /-- The bytes are no text. -/
  | undecodable (e : UndecodableBytes)
  /-- The encoding lacks a character of the text. -/
  | unencodable
  deriving DecidableEq, Repr

namespace FileError

/-- An error of the system with its number and the pathname. -/
def systemMessage (number : Nat) (text : String) (path : Pathname) : Text :=
  "[Errno ".toList ++ Text.ofNat number ++ "] ".toList ++ text.toList ++ ": ".toList ++
    Text.quoted path.text

/-- The wording of the error. -/
def message : FileError → Text
  | missing path => systemMessage 2 "No such file or directory" path
  | notADirectory path => systemMessage 20 "Not a directory" path
  | isADirectory path => systemMessage 21 "Is a directory" path
  | nullInPathname => "embedded null byte".toList
  | undecodable e => e.message
  | unencodable => "a character is not in the encoding".toList

end FileError

/-- A file after it was stamped. -/
structure FileStamping where
  /-- The stamped text. -/
  stamping : Stamping
  /-- What there is to say about it. -/
  notices : List Notice
  /-- The files afterwards. -/
  files : FileSystem

namespace FileSystem

/-- The content of the file at a pathname, and the path from the topmost directory to it. -/
def read (fs : FileSystem) (p : Pathname) : Except FileError (List Text × Bytes) :=
  if p.parts.any (·.contains '\x00') then .error .nullInPathname
  else
    match fs.find p with
    | .error .missing => .error (.missing p)
    | .error .notADirectory => .error (.notADirectory p)
    | .ok ⟨_, .folder _⟩ => .error (.isADirectory p)
    | .ok ⟨path, .file bytes⟩ => .ok (path, bytes)

/-- The text of bytes, with line ends in their universal form. -/
def textOf (encoding : Encoding) (bytes : Bytes) : Except FileError Text :=
  match encoding.decode bytes with
  | .ok t => .ok (Text.universalNewlines t)
  | .error e => .error (.undecodable e)

/-- The text of the file at a pathname. -/
def readText (fs : FileSystem) (encoding : Encoding) (p : Pathname) : Except FileError Text := do
  textOf encoding (← fs.read p).2

/-- Writes a text to the file at a path from the topmost directory on. -/
def writeText (fs : FileSystem) (encoding : Encoding) (path : List Text) (t : Text) :
    Except FileError FileSystem :=
  match encoding.encode? t with
  | some bytes => .ok (fs.putFile path bytes)
  | none => .error .unencodable

/-- The file at a pathname stamped (`transform_file`). A changed text is written back if `write`
says so. -/
def stampFile (fs : FileSystem) (names : MonitoredNames) (encoding : Encoding) (write : Bool)
    (p : Pathname) : Except FileError FileStamping := do
  let (path, bytes) ← fs.read p
  let source ← textOf encoding bytes
  let stamped := stamp names source (some p.text)
  let notices := stampNotices names source (some p.text)
  if stamped.changed then
    -- a run that does not write leaves the files as they are
    let files ← if write then fs.writeText encoding path stamped.text else .ok fs
    return ⟨stamped, notices ++ [.stamped stamped.edits.length p.text], files⟩
  else return ⟨stamped, notices, fs⟩

/-- The files at some pathnames stamped in order, each with its stamped text, and the files
afterwards. It ends at the first file that fails. -/
def stampEach (fs : FileSystem) (names : MonitoredNames) (write : Bool) :
    List Pathname → List (Pathname × Except FileError Stamping) × FileSystem
  | [] => ([], fs)
  | p :: rest =>
    match fs.stampFile names .utf8 write p with
    | .error e => ([(p, .error e)], fs)
    | .ok done =>
      let (results, fs) := done.files.stampEach names write rest
      ((p, .ok done.stamping) :: results, fs)

/-- The accepted files below a pathname stamped in the order of the walk (`transform_tree`). -/
def stampAll (fs : FileSystem) (names : MonitoredNames) (selection : FileSelection) (write : Bool)
    (p : Pathname) : List (Pathname × Except FileError Stamping) × FileSystem :=
  fs.stampEach names write (fs.sourceFiles selection p)

end FileSystem
end SourceStamp
