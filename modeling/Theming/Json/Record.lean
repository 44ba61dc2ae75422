import Theming.Json.Basic

set_option autoImplicit false

/-! # Records in JSON

A record with named fields is written as an object, or as an array with the fields in their order.
Unknown fields are passed over; a field given twice is a fault. -/

namespace Theming.Json

/-- One field of a record: its names, the usual one first. -/
abbrev FieldNames := List String

/-- The values given for a field in an object; nothing if it is given twice. -/
def given? (names : FieldNames) (fields : List (String × Json)) : Option (Option Json) :=
  match fields.filter (fun f => names.contains f.1) with
  | [] => some none
  | [f] => some (some f.2)
  | _ => none

/-- The values of the fields of a record, each absent or given; nothing if the value is no record
    of this form. -/
def record? (form : List FieldNames) : Json → Option (List (Option Json))
  | .object fields => form.mapM (fun names => given? names fields)
  | .array items =>
    if items.length ≤ form.length then
      some (items.map some ++ List.replicate (form.length - items.length) none)
    else none
  | _ => none

/-- The value of a field that may be absent. -/
def orElse {α : Type} (default : α) (read : Json → Option α) : Option Json → Option α
  | none => some default
  | some value => read value

/-- One word out of a closed list: a text, or an object whose only field has that name and is
    null. -/
def word? : Json → Option String
  | .string s => some s
  | .object [(name, .null)] => some name
  | _ => none

end Theming.Json
