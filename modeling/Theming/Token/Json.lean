import Theming.Json.Reader
import Theming.Json.Writer
import Theming.Token.Set

set_option autoImplicit false

/-! # Token sets in JSON

A token set is written as a JSON object. Numbers spelled as integers of 64 bits are integers, all
others are floating-point; null and arrays are no token values. -/

namespace Theming

/-- The value of a JSON number. -/
def Value.ofNumeral? (n : Json.Numeral) : Option Value :=
  n.amount?.map fun
    | .whole i => if Decimal.fitsInt64 i then .int i else .float (Float.ofInt i)
    | .real x => .float x

mutual

/-- The token value of a JSON value, if it has one. -/
def Value.ofJson? : Json → Option Value
  | .bool b => some (.bool b)
  | .number n => Value.ofNumeral? n
  | .string s => some (.str s)
  | .object fields => (Value.ofFields? [] fields).map .map
  | .null => none
  | .array _ => none
termination_by structural v => v

/-- The table of the fields of an object, added to the ones read before; a later field replaces an
    earlier one of the same name. -/
def Value.ofFields? (read : Table Value) : List (String × Json) → Option (Table Value)
  | [] => some read
  | (name, value) :: rest =>
    match Value.ofJson? value with
    | some v => Value.ofFields? (Table.insert name v read) rest
    | none => none
termination_by structural fields => fields

end

/-- The token set of a JSON value, if it is an object of token values. -/
def TokenSet.ofJson? : Json → Option TokenSet
  | .object fields => Value.ofFields? [] fields
  | _ => none

/-- The token set that a JSON text spells. -/
def TokenSet.read? (text : String) : Option TokenSet := do
  let json ← Json.read? text
  if json.depth ≤ Json.maxDepth then TokenSet.ofJson? json else none

mutual

/-- A token value as JSON text. -/
def Value.json : Value → String
  | .bool b => if b then "true" else "false"
  | .int n => toString n
  | .float x => Json.writeReal x
  | .str s => Json.writeString s
  | .map entries => Json.between "\x7b" "\x7d" (Value.jsonEntries entries)
termination_by structural v => v

/-- The entries of a map as JSON text. -/
def Value.jsonEntries : List (String × Value) → List String
  | [] => []
  | (key, value) :: rest =>
    (Json.writeString key ++ ":" ++ value.json) :: Value.jsonEntries rest
termination_by structural entries => entries

end

/-- A token set as JSON text. -/
def TokenSet.json (set : TokenSet) : String :=
  Json.between "\x7b" "\x7d" (Value.jsonEntries set)

end Theming
