import SourceStamp.Text.Escape
import SourceStamp.Text.Numeral

/-!
# Values

The values that callers attach to log entries and give as options: null, truth values, numbers,
texts, lists and objects.

- `Value.isTruthy`: whether a value counts as true in a condition.
- `Value.isWritable`: whether a value can be written in a message, and `Value.shown`: how it reads
  there.
- `Fields`: the fields of an object, with `get?`, `erase` and the merge `override`.
-/

namespace SourceStamp

/-- A value of any kind. -/
inductive Value where
  | null
  | bool (b : Bool)
  | int (n : Int)
  /-- The number `mantissa` divided by ten to the power of `places`. -/
  | decimal (mantissa : Int) (places : Nat)
  | text (t : Text)
  | list (values : List Value)
  /-- An object; of two fields of one name the first one counts. -/
  | object (fields : List (Text × Value))
  deriving Repr, BEq

/-- The fields of an object in their order. -/
abbrev Fields := List (Text × Value)

namespace Value

/-- Whether a value counts as true: not null, false, zero or empty. -/
def isTruthy : Value → Bool
  | null => false
  | bool b => b
  | int n => n != 0
  | decimal mantissa _ => mantissa != 0
  | text t => !t.isEmpty
  | list values => !values.isEmpty
  | object fields => !fields.isEmpty

/-- The mantissa of the number one with some decimal places. -/
def unit (places : Nat) : Int := Int.pow 10 places

theorem unit_ne_zero (places : Nat) : unit places ≠ 0 :=
  Int.ne_of_gt (Int.pow_pos (by decide))

/-- A decimal number in digits. -/
def shownDecimal (mantissa : Int) (places : Nat) : Text :=
  let digits := Text.ofNat mantissa.natAbs
  let padded := List.replicate (places + 1 - digits.length) '0' ++ digits
  (if mantissa < 0 then ['-'] else []) ++ padded.take (padded.length - places) ++
    '.' :: padded.drop (padded.length - places)

mutual

/-- Whether no integer in a value is too long to be written. -/
def isWritable : Value → Bool
  | int n => Text.isWritable n
  | list values => areWritable values
  | object fields => areWritableFields fields
  | _ => true

/-- Whether all values of a list can be written. -/
def areWritable : List Value → Bool
  | [] => true
  | v :: rest => isWritable v && areWritable rest

/-- Whether the values of all fields can be written. -/
def areWritableFields : List (Text × Value) → Bool
  | [] => true
  | (_, v) :: rest => isWritable v && areWritableFields rest

end

mutual

/-- How a value reads in a message, if it can be written. -/
def shown : Value → Text
  | null => "None".toList
  | bool true => "True".toList
  | bool false => "False".toList
  | int n => Text.ofInt n
  | decimal mantissa places => shownDecimal mantissa places
  | text t => Text.quoted t
  | list values => '[' :: shownValues values ++ [']']
  | object fields => '{' :: shownFields fields ++ ['}']

/-- How the values of a list read. -/
def shownValues : List Value → Text
  | [] => []
  | [v] => shown v
  | v :: rest => shown v ++ ", ".toList ++ shownValues rest

/-- How the fields of an object read. -/
def shownFields : List (Text × Value) → Text
  | [] => []
  | [(k, v)] => Text.quoted k ++ ": ".toList ++ shown v
  | (k, v) :: rest => Text.quoted k ++ ": ".toList ++ shown v ++ ", ".toList ++ shownFields rest

end

/-- The text of a value that is one. -/
def text? : Value → Option Text
  | text t => some t
  | _ => none

/-- The fields of a value that is an object. -/
def fields? : Value → Option Fields
  | object fields => some fields
  | _ => none

end Value

namespace Fields

/-- The value of the field of a name. -/
def get? (fields : Fields) (name : Text) : Option Value := List.lookup name fields

/-- The fields without the one of a name. -/
def erase (fields : Fields) (name : Text) : Fields := fields.filter fun f => f.1 != name

/-- Sets the value of a field, which stays in its place; a new one comes last. -/
def set (fields : Fields) (name : Text) (v : Value) : Fields :=
  match fields with
  | [] => [(name, v)]
  | (k, old) :: rest => if k = name then (k, v) :: rest else (k, old) :: set rest name v

/-- The fields of both objects; those of the second one win. -/
def override (fields other : Fields) : Fields := other.foldl (fun fs f => fs.set f.1 f.2) fields

end Fields
end SourceStamp
