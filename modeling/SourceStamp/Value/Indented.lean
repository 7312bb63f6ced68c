import SourceStamp.Value

/-!
# Indented form of values

Values as a report of several lines: one line for each member of a list or object, two spaces deeper
than the list or object itself, and only ASCII characters.

- `Value.indented`: the form of a value that stands at a depth.
-/

namespace SourceStamp.Value

/-- The start of a line at a depth. -/
def margin (depth : Nat) : Text := '\n' :: List.replicate (2 * depth) ' '

mutual

/-- The indented form of a value at a depth, if its integers are short enough to be written. -/
def indented (depth : Nat) : Value → Text
  | null => "null".toList
  | bool true => "true".toList
  | bool false => "false".toList
  | int n => Text.ofInt n
  | decimal mantissa places => shownDecimal mantissa places
  | text t => Text.stringLiteral t
  | list [] => ['[', ']']
  | list (v :: rest) => '[' :: indentedValues (depth + 1) (v :: rest) ++ margin depth ++ [']']
  | object [] => ['{', '}']
  | object (f :: rest) => '{' :: indentedFields (depth + 1) (f :: rest) ++ margin depth ++ ['}']

/-- The members of a list, each on a line of its own. -/
def indentedValues (depth : Nat) : List Value → Text
  | [] => []
  | [v] => margin depth ++ indented depth v
  | v :: rest => margin depth ++ indented depth v ++ ',' :: indentedValues depth rest

/-- The fields of an object, each on a line of its own. -/
def indentedFields (depth : Nat) : List (Text × Value) → Text
  | [] => []
  | [(k, v)] => margin depth ++ Text.stringLiteral k ++ ": ".toList ++ indented depth v
  | (k, v) :: rest =>
    margin depth ++ Text.stringLiteral k ++ ": ".toList ++ indented depth v ++
      ',' :: indentedFields depth rest

end

end SourceStamp.Value
