import SourceStamp.Command.Options
import SourceStamp.Files.Selection

/-!
# Invocations

What a command line asks for.

- `Command`: the commands with their operands and options.
- `Invocation.ofTexts`: what the words after the program's name ask for.

The words up to the first operand are options of the program; that operand names the command, and
all words after it are the command's.
-/

namespace SourceStamp

/-- A command with its operands and options. -/
inductive Command where
  /-- Stamps the files at some paths and below them, and writes them back if `write` says so. -/
  | transform (paths : List Text) (selection : FileSelection) (write : Bool)
  /-- Shows the frames of a trace, from a file or standard input. -/
  | parseStack (file : Option Text)
  /-- Shows the location that the first user frame of a trace tells after some are skipped; their
  number may be withheld. -/
  | resolveStack (file : Option Text) (skip : Option Nat)

/-- What a command line asks for. -/
inductive Invocation where
  /-- How the program is used. -/
  | help
  /-- The version of the program. -/
  | version
  /-- A command, with notices if `verbose` says so. -/
  | command (verbose : Bool) (c : Command)

/-- The meanings of the program's own options. -/
inductive ProgramOption where
  | help
  | version
  | verbose
  deriving DecidableEq, Repr

/-- The meanings of the options of `transform`. -/
inductive TransformOption where
  | help
  | write
  | included
  | excluded
  deriving DecidableEq, Repr

/-- The meanings of the options of the commands on traces. -/
inductive StackOption where
  | help
  | skip
  deriving DecidableEq, Repr

/-- An option that asks for help. -/
def helpOption {α : Type} (meaning : α) : CommandOption α :=
  ⟨meaning, .immediate, "help".toList, some 'h'⟩

/-- The program's own options. -/
def ProgramOption.all : List (CommandOption ProgramOption) :=
  [helpOption .help, ⟨.version, .immediate, "version".toList, none⟩,
    ⟨.verbose, .flag, "verbose".toList, some 'v'⟩]

/-- The options of `transform`. -/
def TransformOption.all : List (CommandOption TransformOption) :=
  [helpOption .help, ⟨.write, .flag, "write".toList, none⟩,
    ⟨.included, .value fun _ => true, "include".toList, none⟩,
    ⟨.excluded, .value fun _ => true, "exclude".toList, none⟩]

/-- The options of `parse-stack`. -/
def StackOption.ofParse : List (CommandOption StackOption) := [helpOption .help]

/-- The options of `resolve-stack`. -/
def StackOption.ofResolve : List (CommandOption StackOption) :=
  [helpOption .help, ⟨.skip, .value fun t => (Text.integer? t).isSome, "skip".toList, none⟩]

namespace Command

/-- The pattern that an option gives; an empty one and a withheld one count as none. -/
def chosenPattern (g : Given TransformOption) (meaning : TransformOption) (standard : Text) :
    Option Text :=
  match g.value meaning standard with
  | none | some [] => none
  | some t => some t

/-- The transformation that options and operands ask for. -/
def transformOf (g : Given TransformOption) : Except UsageError Command :=
  let included := chosenPattern g .included FileSelection.standardIncluded
  let excluded := chosenPattern g .excluded FileSelection.standardExcluded
  match g.operands.toList with
  | [] => .error .missingOperand
  | paths =>
    if g.hasSurplus then .error .surplusWords
    else
      match FileSelection.ofTexts included excluded with
      | .ok selection => .ok (.transform paths selection (g.has .write))
      | .error e => .error (.settings e)

/-- The file that operands name, if they do; more than one is too many. -/
def fileOf (g : Given StackOption) : Except UsageError (Option Text) :=
  if g.hasSurplus then .error .surplusWords
  else
    match g.operands.toList with
    | [] => .ok none
    | [file] => .ok (some file)
    | _ => .error .surplusWords

/-- The number of frames to skip, unless it is withheld. -/
def skipOf (g : Given StackOption) : Except UsageError (Option Nat) :=
  match g.value .skip ['0'] with
  | none => .ok none
  | some value =>
    match Text.integer? value with
    | some (.ofNat n) => .ok (some n)
    | _ => .error (.invalidValue "--skip".toList value)

/-- The command of a name with the words after it. -/
def ofTexts (name : Text) (words : List Text) : Except (Stop Unit) Command :=
  if name = "transform".toList then
    settle (Given.ofTexts TransformOption.all words) transformOf
  else if name = "parse-stack".toList then
    settle (Given.ofTexts StackOption.ofParse words) fun g => (fileOf g).map parseStack
  else if name = "resolve-stack".toList then
    settle (Given.ofTexts StackOption.ofResolve words) fun g => do
      let file ← fileOf g
      return resolveStack file (← skipOf g)
  else .error (.usage (.unknownCommand name))
where
  /-- The command that was read, unless its help was asked for. -/
  settle {α : Type} (given : Except (Stop α) (Given α))
      (make : Given α → Except UsageError Command) : Except (Stop Unit) Command :=
    match given with
    | .error (.usage e) => .error (.usage e)
    | .error (.reached _) => .error (.reached ())
    | .ok g =>
      match make g with
      | .error e => .error (.usage e)
      | .ok c => .ok c

end Command

namespace Invocation

/-- What the words of a command ask for, given the options before it. -/
def ofCommand (g : Given ProgramOption) (name : Text) (words : List Text) :
    Except UsageError Invocation :=
  match Command.ofTexts name words with
  | .error (.usage e) => .error e
  | .error (.reached _) => .ok .help
  | .ok c => if g.hasSurplus then .error .surplusWords else .ok (.command (g.has .verbose) c)

/-- What words ask for after the options that were given before them. -/
def read (g : Given ProgramOption) : List Text → Except UsageError Invocation
  | [] => .error .missingCommand
  | word :: rest =>
    if word = "--".toList then .error (.unknownCommand word)
    else
      match Word.ofText ProgramOption.all word with
      | .error e => .error e
      | .ok (.plain name) => ofCommand g name rest
      | .ok w =>
        match g.read ProgramOption.all [w] with
        | .ok g => read g rest
        | .error (.usage e) => .error e
        | .error (.reached .version) => .ok .version
        | .error (.reached _) => .ok .help

/-- What the words after the program's name ask for (`build_parser`). A word before two dashes that
could mean several of the program's options is refused wherever it stands. -/
def ofTexts (words : List Text) : Except UsageError Invocation :=
  match Word.ofTexts ProgramOption.all words with
  | .error e => .error e
  | .ok _ => read .nothing words

end Invocation
end SourceStamp
