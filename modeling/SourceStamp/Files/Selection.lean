import SourceStamp.Stack.Policy

/-!
# File selection

Which files are stamped, and which directories are not entered.

- `FileSelection`: a condition that files must satisfy and one that they must not satisfy. Nothing
  else about a pattern counts but whether it is found in a pathname, so the conditions may be of any
  kind; `FileSelection.ofPatterns` takes them from two patterns.
- `FileSelection.accepts`: whether a file is stamped.
- `FileSelection.prunes`: whether a directory is left out as a whole.
- `FileSelection.standard`: the usual choice; `ofTexts_standard` says how its patterns are written.

The conditions see pathnames with slashes only.
-/

namespace SourceStamp

/-- A choice of files (`FileFilter`). -/
structure FileSelection where
  /-- Files must satisfy this. -/
  includes : Text → Bool
  /-- Files and directories must not satisfy this. -/
  excludes : Text → Bool

namespace FileSelection

/-- The files in which one pattern is found and another one is not. A missing pattern accepts
everything or excludes nothing. -/
def ofPatterns (included excluded : Option Pattern) : FileSelection where
  includes path := included.all (·.search path)
  excludes path := excluded.any (·.search path)

/-- How the usual pattern of accepted files is written: scripts of all kinds (`DEFAULT_INCLUDE`). -/
def standardIncluded : Text := "\\.[jt]sx?$".toList

/-- How the usual pattern of skipped files is written: dependencies and build output
(`DEFAULT_EXCLUDE`). -/
def standardExcluded : Text := "node_modules|rastro/dist|\\.next".toList

/-- The usual pattern of accepted files. -/
def scripts : Pattern :=
  .seq (.char (.single '.'))
    (.seq (.char (.oneOf ['j', 't']))
      (.seq (.char (.single 's'))
        (.seq (.optional (.char (.single 'x'))) (.seq (.finish false) .empty))))

/-- The usual pattern of skipped files. -/
def dependencies : Pattern :=
  .either (.literal "node_modules".toList)
    (.either (.literal "rastro/dist".toList) (.literal ".next".toList))

/-- The usual choice (`DEFAULT_FILE_FILTER`). -/
def standard : FileSelection := ofPatterns (some scripts) (some dependencies)

/-- The pattern that a text writes for a field of the choice, in the notation that
`Pattern.parse?` reads (`_compile`). -/
def readPattern (field : String) : Option Text → Except SettingsError (Option Pattern)
  | none => .ok none
  | some t =>
    match Pattern.parse? t with
    | some p => .ok (some p)
    | none => .error (.invalidPattern field t)

/-- The choice of two written patterns. -/
def ofTexts (included excluded : Option Text) : Except SettingsError FileSelection := do
  let included ← readPattern "include" included
  let excluded ← readPattern "exclude" excluded
  return ofPatterns included excluded

theorem parse?_standardIncluded : Pattern.parse? standardIncluded = some scripts := by
  decide +kernel

theorem parse?_standardExcluded : Pattern.parse? standardExcluded = some dependencies := by
  decide +kernel

/-- The usual choice is the one of its written patterns. -/
theorem ofTexts_standard :
    ofTexts (some standardIncluded) (some standardExcluded) = .ok standard := by
  simp [ofTexts, readPattern, parse?_standardIncluded, parse?_standardExcluded, standard, bind,
    Except.bind, pure, Except.pure]

/-- A pathname with slashes where it has backslashes. -/
def withSlashes (path : Text) : Text := path.map fun c => if c = Text.backslash then '/' else c

/-- Whether a file is stamped (`FileFilter.accepts`). -/
def accepts (f : FileSelection) (path : Text) : Bool :=
  let path := withSlashes path
  !f.excludes path && f.includes path && !FramePolicy.standardFileRules.any (·.applies path)

/-- Whether a directory is left out as a whole (`FileFilter.prunes`). Its pathname is seen with one
slash at the end. -/
def prunes (f : FileSelection) (directory : Text) : Bool :=
  f.excludes (Text.dropEndWhile (· == '/') (withSlashes directory) ++ ['/'])

end FileSelection
end SourceStamp
