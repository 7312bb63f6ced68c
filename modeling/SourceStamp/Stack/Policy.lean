import SourceStamp.Pattern.Reader
import SourceStamp.Settings.Error
import SourceStamp.Stack.Frame

/-!
# Frame policies

Which frames, functions and files are not the user's own code.

- `PathRule`: one rule about paths: a text they hold, a pattern found in them, or a text they start
  with.
- `FramePolicy`: a table of rules for frames, a list of texts for function names, and a table of
  rules for files; `FramePolicy.standard` holds the usual ones.
- `InternalDirectories`: the directories of a machine that the usual rules for frames name.
-/

namespace SourceStamp

/-- A rule about paths (`InternalFramePattern`). -/
inductive PathRule where
  /-- The path holds a text. -/
  | holds (text : Text)
  /-- A pattern, read from the given text, is found in the path. -/
  | finds (source : Text) (pattern : Pattern)
  /-- The path starts with a text. -/
  | starts (text : Text)
  deriving DecidableEq, Repr

namespace PathRule

/-- The name of the kind of a rule. -/
def kind : PathRule → String
  | holds _ => "substring"
  | finds .. => "regex"
  | starts _ => "prefix"

/-- The text or pattern of a rule as it is written. -/
def written : PathRule → Text
  | holds t => t
  | finds t _ => t
  | starts t => t

/-- The rule of a kind with a text, if there is such a kind and the text is a pattern where the kind
asks for one (`InternalFramePattern.__post_init__`). -/
def ofKind? (kind text : Text) : Except SettingsError PathRule :=
  if kind = "substring".toList then .ok (holds text)
  else if kind = "prefix".toList then .ok (starts text)
  else if kind = "regex".toList then
    match Pattern.parse? text with
    | some p => .ok (finds text p)
    | none => .error (.invalidPattern "pattern" text)
  else .error (.unknownRuleKind kind)

/-- Whether a path satisfies a rule (`InternalFramePattern.matches`). -/
def applies : PathRule → Text → Bool
  | holds t, path => Text.occurs t path
  | finds _ p, path => p.search path
  | starts t, path => t.isPrefixOf path

end PathRule

/-- Which frames, functions and files are internal (`FrameFilter`). -/
structure FramePolicy where
  /-- Rules about the paths of frames, in the order in which they are tried. -/
  frameRules : List PathRule
  /-- Texts in the names of internal functions. -/
  functionTexts : List Text
  /-- Rules about the paths of files. -/
  fileRules : List PathRule
  deriving DecidableEq, Repr

/-- The directories of a machine in which no code of the user stands, each with a separator at its
end. Rules of `INTERNAL_FRAME_PATTERNS` hold them. -/
structure InternalDirectories where
  /-- The directory of the library (`PACKAGE_DIR`). -/
  library : Text
  /-- The directory of the modules that come with the interpreter. -/
  interpreter : Text
  deriving DecidableEq, Repr

/-- The directories of some machine, for examples. -/
def InternalDirectories.sample : InternalDirectories :=
  ⟨"/opt/rastro/".toList, "/usr/lib/interpreter/".toList⟩

namespace FramePolicy

/-- The rules of `INTERNAL_FRAME_PATTERNS` that find the library's own distribution and runtime
modules in the path of a frame. -/
def libraryRules : List PathRule :=
  let scriptExtension : Pattern :=
    .seq (.char (.single '.'))
      (.seq (.optional (.char (.oneOf ['c', 'm'])))
        (.seq (.char (.oneOf ['j', 't'])) (.literal ['s'])))
  [.finds "rastro[/\\\\]dist".toList
      (.seq (.literal "rastro".toList)
        (.seq (.char (.oneOf ['/', Text.backslash])) (.literal "dist".toList))),
    .finds "logger\\.[cm]?[jt]s".toList (.seq (.literal "logger".toList) scriptExtension),
    .finds "hooks\\.[cm]?[jt]s".toList (.seq (.literal "hooks".toList) scriptExtension)]

/-- Texts in the paths of internal frames: modules of the library, frameworks, runtimes, and
interpreters (`INTERNAL_FRAME_PATTERNS`). -/
def internalTexts : List Text :=
  ["sourceTracker".toList, "decorators".toList, "loggerUtils".toList, "consoleOutput".toList,
    "logProcessor".toList, "node_modules".toList, "node:".toList, "next-server".toList,
    "next/dist".toList, ".next/".toList, "react-dom".toList, "react/jsx".toList,
    "async_hooks".toList, "native code".toList, "<anonymous>".toList, "console.".toList,
    "<frozen ".toList, "site-packages".toList, "dist-packages".toList]

/-- Texts in the names of functions that belong to a runtime (`INTERNAL_FUNCTION_PATTERNS`). -/
def runtimeFunctions : List Text :=
  ["react_stack".toList, "react_internal".toList, "Object.".toList, "AsyncResource".toList,
    "runInAsyncScope".toList, "processTicksAndRejections".toList, "nextTick".toList,
    "node:".toList, "anonymous".toList, "eval".toList]

/-- Texts in the paths of files that are never stamped (`FILE_SKIP_PATTERNS`). -/
def skippedFiles : List Text :=
  ["node_modules".toList, "rastro/dist".toList, "rastro\\dist".toList, "hooks.esm".toList,
    "hooks.js".toList, ".next/".toList]

/-- The usual rules for files. -/
def standardFileRules : List PathRule := skippedFiles.map .holds

/-- The usual policy on a machine (`DEFAULT_FILTER`). The directory of the library is tried first on
a frame, that of the interpreter last. -/
def standard (d : InternalDirectories) : FramePolicy where
  frameRules :=
    .starts d.library :: (libraryRules ++ internalTexts.map .holds) ++ [.starts d.interpreter]
  functionTexts := runtimeFunctions
  fileRules := standardFileRules

/-- The first rule that a path satisfies (`FrameFilter.first_match`). -/
def firstRule? (f : FramePolicy) (path : Text) : Option PathRule :=
  f.frameRules.find? (·.applies path)

/-- Whether the path of a frame is internal (`FrameFilter.is_internal`). A missing or empty path is.
-/
def isInternal (f : FramePolicy) (path : Option Text) : Bool :=
  match path with
  | none | some [] => true
  | some path => (f.firstRule? path).isSome

/-- Whether the name of a function is internal: missing, empty, of one character, or with one of the
texts in it (`FrameFilter.is_internal_function_name`). -/
def isInternalFunction (f : FramePolicy) (name : Option Text) : Bool :=
  match name with
  | none | some [] | some [_] => true
  | some name => f.functionTexts.any (Text.occurs · name)

/-- Whether a file is never stamped (`FrameFilter.is_internal_file`). -/
def isSkippedFile (f : FramePolicy) (path : Text) : Bool := f.fileRules.any (·.applies path)

end FramePolicy
end SourceStamp
