import SourceStamp.Text.Basic

/-!
# Pathnames

- `Pathname.ofText`: the pathname that a text writes. Doubled and trailing slashes and the parts `.`
  mean nothing; the part `..` stays, for where it leads depends on the files.
- `Pathname.text`: a pathname in its plain form.
-/

namespace SourceStamp

/-- A pathname, part by part. -/
structure Pathname where
  /-- The slashes in front: none for a pathname that starts at the working directory, else one, or
  two where exactly two are written. -/
  slashes : Nat
  /-- The parts; none is empty or `.`. -/
  parts : List Text
  deriving DecidableEq, Repr

namespace Pathname

/-- The part that means the directory itself. -/
def here : Text := ['.']

/-- The part that means the directory above. -/
def above : Text := ['.', '.']

/-- The pathname that a text writes. -/
def ofText (t : Text) : Pathname where
  slashes :=
    let n := (t.takeWhile (· == '/')).length
    if n ≤ 2 then n else 1
  parts := (Text.pieces (· == '/') t).filter fun part => !part.isEmpty && part != here

/-- The pathname of an entry of a directory. -/
def child (p : Pathname) (name : Text) : Pathname := { p with parts := p.parts ++ [name] }

/-- A pathname in its plain form; that of the working directory is `.`. -/
def text (p : Pathname) : Text :=
  match p.slashes, p.parts with
  | 0, [] => here
  | n, parts => List.replicate n '/' ++ Text.join ['/'] parts

/-- Whether a pathname starts at the top of the file system. -/
def isAbsolute (p : Pathname) : Bool := p.slashes != 0

@[simp] theorem parts_child (p : Pathname) (name : Text) :
    (p.child name).parts = p.parts ++ [name] := rfl

end Pathname
end SourceStamp
