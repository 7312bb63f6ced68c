import SourceStamp.Text.Blank
import SourceStamp.Text.Digit

/-!
# Numerals

- `number?`: the value of a run of decimal digits, of any script, up to `longestNumeral` of them.
- `integer?`: a numeral with blanks around it, a sign, and single underscores between its digits.
- `ofNat`, `ofInt`: the numeral of a number; `isWritable`: whether it is one that can be read.
- `ofInt?`: the numeral of an integer, unless it would be too long; `unwritableReason`: what is said
  then.
-/

namespace SourceStamp

/-- A text that is taken for a numeral has no value, because its digits are not decimal or too many,
or a number has no numeral, because that would have too many digits. -/
structure UnreadableNumeral where
  deriving DecidableEq, Repr

namespace Text

/-- The most digits a numeral may have; a longer one is neither read nor written. -/
def longestNumeral : Nat := 4300

/-- The value of digits, the most significant first. -/
def valueOfDigits (digits : List Nat) : Nat := digits.foldl (fun n d => 10 * n + d) 0

/-- The value of a run of digits that is not too long. -/
def boundedValue? (digits : List Nat) : Option Nat :=
  if digits.length ≤ longestNumeral then some (valueOfDigits digits) else none

/-- The value of a text that consists of decimal digits. -/
def number? (t : Text) : Option Nat :=
  match t with
  | [] => none
  | _ => (t.mapM digit?).bind boundedValue?

/-- The digits of a numeral in which single underscores may stand between digits. -/
def groupedDigits? : Text → Option (List Nat)
  | [] => none
  | [c] => (digit? c).map ([·])
  | c :: '_' :: r =>
    match digit? c, groupedDigits? r with
    | some d, some ds => some (d :: ds)
    | _, _ => none
  | c :: r =>
    match digit? c, groupedDigits? r with
    | some d, some ds => some (d :: ds)
    | _, _ => none

/-- The blanks that may surround a numeral: all but the separators U+001C to U+001F. -/
def isNumeralBlank (c : Char) : Bool := isBlank c && !(28 ≤ c.toNat && c.toNat ≤ 31)

/-- The value of a numeral with a sign and grouped digits, blanks around it ignored. -/
def integer? (t : Text) : Option Int :=
  match dropEndWhile isNumeralBlank (t.dropWhile isNumeralBlank) with
  | '-' :: r => ((groupedDigits? r).bind boundedValue?).map (fun n => -(n : Int))
  | '+' :: r => ((groupedDigits? r).bind boundedValue?).map Int.ofNat
  | r => ((groupedDigits? r).bind boundedValue?).map Int.ofNat

/-- The decimal digits of a number. -/
def ofNat (n : Nat) : Text := (Nat.repr n).toList

/-- The decimal digits of an integer, after a minus sign if it is negative. -/
def ofInt : Int → Text
  | .ofNat n => ofNat n
  | .negSucc n => '-' :: ofNat (n + 1)

/-- Whether an integer has no more digits than a numeral may have. -/
def isWritable (n : Int) : Bool := (ofNat n.natAbs).length ≤ longestNumeral

/-- The numeral of an integer, unless it would be too long. -/
def ofInt? (n : Int) : Except UnreadableNumeral Text :=
  if isWritable n then .ok (ofInt n) else .error ⟨⟩

/-- What is said of a number that cannot be written. -/
def unwritableReason : Text :=
  ("Exceeds the limit (4300 digits) for integer string conversion; " ++
    "use sys.set_int_max_str_digits() to increase the limit").toList

end Text
end SourceStamp
