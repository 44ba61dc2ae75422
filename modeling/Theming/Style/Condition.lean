import Theming.Json.Record
import Theming.Token.Json

set_option autoImplicit false

/-! # Conditions

A condition compares the value under a key of the context with an expected one. A key that is not
there matches nothing. -/

namespace Theming.Style

/-- How a condition compares. -/
inductive Relation where
  | equals
  | notEquals
  | greaterThan
  | lessThan
  | greaterEqual
  | lessEqual
  /-- The text of the expected value occurs in the actual one. -/
  | contains
  /-- A relation that is not known; nothing satisfies it. -/
  | unknown
deriving Repr, DecidableEq, Inhabited

namespace Relation

/-- The name of a relation. -/
def name : Relation → String
  | .equals => "equals"
  | .notEquals => "not_equals"
  | .greaterThan => "greater_than"
  | .lessThan => "less_than"
  | .greaterEqual => "greater_equal"
  | .lessEqual => "less_equal"
  | .contains => "contains"
  | .unknown => "unknown"

/-- The relation of a name; every other name stands for the unknown one. -/
def ofName (name : String) : Relation :=
  ([.equals, .notEquals, .greaterThan, .lessThan, .greaterEqual, .lessEqual, .contains].find?
    (fun r => Relation.name r = name)).getD .unknown

/-- Whether a value stands in the relation to an expected one. -/
def holds (actual expected : Value) : Relation → Bool
  | .equals => actual.looselyEquals expected
  | .notEquals => !actual.looselyEquals expected
  | .greaterThan => actual.compare expected == some .gt
  | .lessThan => actual.compare expected == some .lt
  | .greaterEqual => actual.compare expected == some .gt || actual.compare expected == some .eq
  | .lessEqual => actual.compare expected == some .lt || actual.compare expected == some .eq
  | .contains => Text.contains expected.display actual.display
  | .unknown => false

end Relation

/-- A comparison of the value under a key with an expected value. -/
structure Condition where
  relation : Relation
  key : String
  value : Value
deriving Repr, DecidableEq, Inhabited

namespace Condition

/-- Whether a condition holds in a context. -/
def holds (context : TokenSet) (c : Condition) : Bool :=
  match context.get? c.key with
  | some actual => c.relation.holds actual.leaf c.value
  | none => false

/-- Whether all conditions hold in a context. -/
def allHold (context : TokenSet) (conditions : List Condition) : Bool :=
  conditions.all (holds context)

/-! ## In JSON -/

/-- Reads a condition. -/
def ofJson? (json : Json) : Option Condition := do
  match ← Json.record? [["type"], ["property", "key"], ["value"]] json with
  | [some relation, some key, some value] =>
    return ⟨Relation.ofName (← relation.word?), ← key.asString?, ← Value.ofJson? value⟩
  | _ => none

/-- Reads a list of conditions. -/
def listOfJson? : Json → Option (List Condition)
  | .array items => items.mapM ofJson?
  | _ => none

/-- A condition as JSON text. -/
def json (c : Condition) : String :=
  Json.between "\x7b" "\x7d" [
    "\"type\":" ++ Json.writeString c.relation.name,
    "\"property\":" ++ Json.writeString c.key,
    "\"value\":" ++ c.value.json]

end Condition

end Theming.Style
