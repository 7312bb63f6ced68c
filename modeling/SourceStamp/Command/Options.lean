import SourceStamp.Settings.Error

/-!
# Command-line options

How the words of a command line are read as options and operands, whatever the command.

- `CommandOption`: an option with its spellings.
- `Word.ofText`: what a word is: an operand, an option by its name or a beginning of it that no
  other option shares, or an option that does not exist.
- `Given.ofTexts`: the options and operands that the words give. All operands stand together; those
  after an option that follows the first operands are surplus.
-/

namespace SourceStamp

/-- What is wrong with a command line. -/
inductive UsageError where
  /-- The word is the beginning of several options. -/
  | ambiguousOption (word : Text)
  /-- The option needs a value after it. -/
  | missingValue (option : Text)
  /-- The option takes no value. -/
  | unexpectedValue (option : Text)
  /-- The value is none that the option takes. -/
  | invalidValue (option value : Text)
  /-- No command is named. -/
  | missingCommand
  /-- There is no command of this name. -/
  | unknownCommand (name : Text)
  /-- The command needs an operand at least. -/
  | missingOperand
  /-- There are options that do not exist, or too many operands. -/
  | surplusWords
  /-- A pattern cannot be read. -/
  | settings (e : SettingsError)
  deriving Repr

/-- How a usage error reads. -/
def UsageError.message : UsageError → Text
  | ambiguousOption word => "ambiguous option: ".toList ++ word
  | missingValue option => "a value must follow ".toList ++ option
  | unexpectedValue option => "no value may follow ".toList ++ option
  | invalidValue option value => "not a value of ".toList ++ option ++ ": ".toList ++ value
  | missingCommand => "no command is given".toList
  | unknownCommand name => "unknown command: ".toList ++ name
  | missingOperand => "no path is given".toList
  | surplusWords => "some arguments were not understood".toList
  | settings e => e.message

/-- What an option does. -/
inductive OptionKind where
  /-- It is set or not. -/
  | flag
  /-- It ends the reading at once. -/
  | immediate
  /-- It takes a value that satisfies a test. -/
  | value (isValid : Text → Bool)

/-- An option of a command. -/
structure CommandOption (α : Type) where
  /-- What the option means. -/
  meaning : α
  /-- What it does. -/
  kind : OptionKind
  /-- Its long spelling, after two dashes. -/
  name : Text
  /-- Its short spelling, after one dash. Only options without a value have one. -/
  letter : Option Char

namespace CommandOption

variable {α : Type}

/-- The long spelling with its dashes. -/
def longSpelling (o : CommandOption α) : Text := '-' :: '-' :: o.name

/-- Whether a word is a spelling of the option in full. -/
def isSpelled (o : CommandOption α) (word : Text) : Bool :=
  word == o.longSpelling || o.letter.any fun c => word == ['-', c]

end CommandOption

/-- What is attached to an option in its word. -/
inductive Attached where
  /-- Nothing. -/
  | nothing
  /-- What follows the letter of the option, or the equals sign right after it: more letters, or a
  value. -/
  | tail (t : Text)
  /-- What follows the name of the option and an equals sign. -/
  | value (t : Text)
  deriving DecidableEq, Repr

/-- The attached text as a value. -/
def Attached.text? : Attached → Option Text
  | nothing => none
  | tail t => some t
  | value t => some t

/-- What a word of a command line is. -/
inductive Word (α : Type) where
  /-- An operand, or the value of the option before it. -/
  | plain (t : Text)
  /-- Two dashes: all that follows is plain. -/
  | separator
  /-- An option with what is attached to it. -/
  | option (o : CommandOption α) (attached : Attached)
  /-- An option that does not exist. -/
  | unknown

namespace Word

variable {α : Type}

/-- Whether a word is a negative number: digits, or digits with a point among them and one digit
after it at least. -/
def isNegativeNumber (word : Text) : Bool :=
  match Text.withoutFinalNewline word with
  | '-' :: number =>
    match number.dropWhile Text.isDecimal with
    | [] => !number.isEmpty
    | '.' :: places => !places.isEmpty && places.all Text.isDecimal
    | _ => false
  | _ => false

/-- The part of a word before its first equals sign, and the part after that, if it has one. -/
def splitAtEquals (word : Text) : Text × Option Text :=
  match word.dropWhile (· != '=') with
  | [] => (word, none)
  | _ :: value => (word.takeWhile (· != '='), some value)

/-- The options that a word in no full spelling can mean: those whose names begin with it, or the
one whose letter it starts with. -/
def candidates (options : List (CommandOption α)) (word : Text) : List (Word α) :=
  match word with
  | '-' :: '-' :: _ =>
    let (beginning, value) := splitAtEquals word
    (options.filter fun o => beginning.isPrefixOf o.longSpelling).map
      (option · (value.elim .nothing .value))
  | '-' :: c :: rest =>
    (options.filter fun o => o.letter == some c).map (option · (.tail rest))
  | _ => []

/-- The option that a word spells in full, before an equals sign if one follows. -/
def spelled? (options : List (CommandOption α)) (word : Text) : Option (Word α) :=
  ((options.find? (·.isSpelled word)).map (option · .nothing)).or
    (match splitAtEquals word with
    | (_, none) => none
    | (spelling, some value) =>
      (options.find? (·.isSpelled spelling)).map fun o =>
        option o (if spelling = o.longSpelling then .value value else .tail value))

/-- What a word is, two dashes apart. A word that no option explains is plain if it starts with no
dash, is a dash only or a negative number, or holds a space. -/
def ofText (options : List (CommandOption α)) (word : Text) : Except UsageError (Word α) :=
  if word.head? != some '-' || word == ['-'] then .ok (plain word)
  else
    match spelled? options word with
    | some w => .ok w
    | none =>
      match candidates options word with
      | _ :: _ :: _ => .error (.ambiguousOption word)
      | [w] => .ok w
      | [] =>
        if isNegativeNumber word || word.contains ' ' then .ok (plain word) else .ok unknown

/-- What the words of a command line are. -/
def ofTexts (options : List (CommandOption α)) : List Text → Except UsageError (List (Word α))
  | [] => .ok []
  | word :: rest =>
    if word = "--".toList then .ok (separator :: rest.map plain)
    else do
      let w ← ofText options word
      return w :: (← ofTexts options rest)

end Word

/-- Why a reading ends before the last word. -/
inductive Stop (α : Type) where
  /-- The words are wrong. -/
  | usage (e : UsageError)
  /-- An immediate option was met. -/
  | reached (meaning : α)

/-- The operands of a command line while it is read. -/
inductive Operands where
  /-- There were none. -/
  | awaited
  /-- More may follow. -/
  | filling (operands : List Text)
  /-- An option followed them. -/
  | closed (operands : List Text)
  deriving DecidableEq, Repr

namespace Operands

/-- The operands so far. -/
def toList : Operands → List Text
  | awaited => []
  | filling ts => ts
  | closed ts => ts

/-- The operands after an option. -/
def close : Operands → Operands
  | filling ts => closed ts
  | operands => operands

end Operands

/-- What the words of a command line give. -/
structure Given (α : Type) where
  /-- The options in order, with their values. Flags have none, and neither have options whose value
  is withheld. -/
  chosen : List (α × Option Text)
  /-- The operands. -/
  operands : Operands
  /-- Whether some words have no meaning. -/
  hasSurplus : Bool

namespace Given

variable {α : Type}

/-- Nothing is given. -/
def nothing : Given α := ⟨[], .awaited, false⟩

/-- Adds operands, which are surplus after those that an option closed. -/
def addOperands (g : Given α) (ts : List Text) : Given α :=
  match g.operands with
  | .awaited => { g with operands := .filling ts }
  | .filling before => { g with operands := .filling (before ++ ts) }
  | .closed _ => { g with hasSurplus := true }

/-- Adds an option. -/
def choose (g : Given α) (o : CommandOption α) (value : Option Text) : Given α :=
  { g with chosen := g.chosen ++ [(o.meaning, value)], operands := g.operands.close }

/-- Adds a word that has no meaning. -/
def addSurplus (g : Given α) : Given α :=
  { g with operands := g.operands.close, hasSurplus := true }

/-- The options whose letters stand together, if all of them are letters of options. -/
def lettersOf? (options : List (CommandOption α)) (letters : Text) :
    Option (List (CommandOption α)) :=
  letters.mapM fun c => options.find? (·.letter == some c)

/-- The options that are given together with an option without a value: those whose letters follow
its letter. Anything else that is attached is refused. -/
def together (options : List (CommandOption α)) (o : CommandOption α) :
    Attached → Except UsageError (List (CommandOption α))
  | .nothing => .ok [o]
  | .value _ | .tail [] => .error (.unexpectedValue o.longSpelling)
  | .tail (c :: rest) =>
    match lettersOf? options (c :: rest) with
    | some os => .ok (o :: os)
    | none => .error (.unexpectedValue o.longSpelling)

/-- Adds options without values, up to the first immediate one. -/
def chooseAll (g : Given α) : List (CommandOption α) → Except (Stop α) (Given α)
  | [] => .ok g
  | o :: rest =>
    match o.kind with
    | .immediate => .error (.reached o.meaning)
    | _ => (g.choose o none).chooseAll rest

/-- Adds an option with its value. Two dashes withhold it. -/
def chooseValue (g : Given α) (o : CommandOption α) (isValid : Text → Bool) (value : Text) :
    Except (Stop α) (Given α) :=
  if value = "--".toList then .ok (g.choose o none)
  else if isValid value then .ok (g.choose o (some value))
  else .error (.usage (.invalidValue o.longSpelling value))

/-- What words give in addition. -/
def read (options : List (CommandOption α)) (g : Given α) :
    List (Word α) → Except (Stop α) (Given α)
  | [] => .ok g
  | .plain t :: rest => read options (g.addOperands [t]) rest
  | .separator :: rest => read options (g.addOperands []) rest
  | .unknown :: rest => read options g.addSurplus rest
  | .option o attached :: rest =>
    match o.kind, attached.text?, rest with
    -- a value comes from the same word, else from the next one
    | .value isValid, some v, rest => do read options (← g.chooseValue o isValid v) rest
    | .value isValid, none, .plain v :: rest => do read options (← g.chooseValue o isValid v) rest
    | .value _, none, _ => .error (.usage (.missingValue o.longSpelling))
    -- several letters in one word are several options
    | _, _, rest =>
      match together options o attached with
      | .error e => .error (.usage e)
      | .ok os => do read options (← g.chooseAll os) rest

/-- What the words of a command line give. -/
def ofTexts (options : List (CommandOption α)) (words : List Text) :
    Except (Stop α) (Given α) :=
  match Word.ofTexts options words with
  | .error e => .error (.usage e)
  | .ok ws => nothing.read options ws

/-- Whether an option is given. -/
def has [DecidableEq α] (g : Given α) (meaning : α) : Bool :=
  g.chosen.any fun c => decide (c.1 = meaning)

/-- The value of an option where it is given for the last time, or `standard` if it is not given. -/
def value [DecidableEq α] (g : Given α) (meaning : α) (standard : Text) : Option Text :=
  match (g.chosen.filter fun c => decide (c.1 = meaning)).getLast? with
  | none => some standard
  | some (_, v) => v

end Given
end SourceStamp
