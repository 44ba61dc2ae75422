import Theming.Decimal.Reading
import Theming.Decimal.Shortest
import Theming.Table
import Theming.Text.Blank

set_option autoImplicit false

/-! # Token values

A themeable value: a truth value, a number, a text, or a map of named values. Maps are key-ordered
tables, so a value lists its parts in one order only. This file holds the views of a value that the
rest of the library works with: its text, its number, its leaf, and two comparisons. -/

namespace Theming

/-- A themeable value. -/
inductive Value where
  | bool (b : Bool)
  | int (n : Int)
  | float (x : Float)
  | str (s : String)
  | map (entries : List (String × Value))
deriving Repr, Inhabited

namespace Value

/-! ## Decidable equality

Two values are equal when they have the same form; floating-point numbers are compared as bit
patterns here. `same` below is the numeric comparison. -/

mutual

/-- Decides whether two values are equal. -/
def decEq : (a b : Value) → Decidable (a = b)
  | .bool a, .bool b => if h : a = b then isTrue (by rw [h]) else isFalse (by simp [h])
  | .int a, .int b => if h : a = b then isTrue (by rw [h]) else isFalse (by simp [h])
  | .float a, .float b => if h : a = b then isTrue (by rw [h]) else isFalse (by simp [h])
  | .str a, .str b => if h : a = b then isTrue (by rw [h]) else isFalse (by simp [h])
  | .map a, .map b =>
    match decEqEntries a b with
    | isTrue h => isTrue (by rw [h])
    | isFalse h => isFalse (by simp [h])
  | .bool _, .int _ | .bool _, .float _ | .bool _, .str _ | .bool _, .map _
  | .int _, .bool _ | .int _, .float _ | .int _, .str _ | .int _, .map _
  | .float _, .bool _ | .float _, .int _ | .float _, .str _ | .float _, .map _
  | .str _, .bool _ | .str _, .int _ | .str _, .float _ | .str _, .map _
  | .map _, .bool _ | .map _, .int _ | .map _, .float _ | .map _, .str _ => isFalse (by simp)
termination_by structural a => a

/-- Decides whether two lists of entries are equal. -/
def decEqEntries : (a b : List (String × Value)) → Decidable (a = b)
  | [], [] => isTrue rfl
  | [], _ :: _ => isFalse (by simp)
  | _ :: _, [] => isFalse (by simp)
  | (key, value) :: rest, (key', value') :: rest' =>
    if hk : key = key' then
      match decEq value value' with
      | isTrue hv =>
        match decEqEntries rest rest' with
        | isTrue hr => isTrue (by rw [hk, hv, hr])
        | isFalse hr => isFalse (by simp [hr])
      | isFalse hv => isFalse (by simp [hv])
    else isFalse (by simp [hk])
termination_by structural a => a

end

instance : DecidableEq Value := decEq

/-! ## Views -/

/-- Whether a value is a map. -/
def isMap : Value → Bool
  | .map _ => true
  | _ => false

/-- A value is a map or it is none: the cases of what is about maps only. -/
@[elab_as_elim]
theorem mapCases {motive : Value → Prop} (map : ∀ entries, motive (.map entries))
    (other : ∀ v : Value, v.isMap = false → motive v) (v : Value) : motive v := by
  cases v with
  | map entries => exact map entries
  | bool b => exact other _ rfl
  | int n => exact other _ rfl
  | float x => exact other _ rfl
  | str s => exact other _ rfl

/-- The entry that stands in for a map where the map is referred to. -/
def leafKey : String := "value"

/-- What a reference to the value yields: the `value` entry of a map that has one, otherwise the
    value itself. -/
def leaf : Value → Value
  | .map entries => (Table.find? leafKey entries).getD (.map entries)
  | v => v

/-- The text of a map without a `value` entry. -/
def mapText : String := "\x7b…\x7d"

mutual

/-- The text of a value. A map shows its `value` entry. -/
def display : Value → String
  | .bool b => if b then "true" else "false"
  | .int n => toString n
  | .float x => Decimal.text x
  | .str s => s
  | .map entries => (displayLeaf entries).getD mapText
termination_by structural v => v

/-- The text of the `value` entry. -/
def displayLeaf : List (String × Value) → Option String
  | [] => none
  | (key, value) :: rest => if leafKey = key then some value.display else displayLeaf rest
termination_by structural entries => entries

end

/-- The number that a value stands for: a number, or a text that spells one. -/
def toFloat? : Value → Option Float
  | .int n => some (Float.ofInt n)
  | .float x => some x
  | .str s => Decimal.readFloat? (Text.trim s.toList)
  | _ => none

/-- The text of a text value. -/
def asString? : Value → Option String
  | .str s => some s
  | _ => none

/-- The entries of a map. -/
def entries? : Value → Option (Table Value)
  | .map entries => some entries
  | _ => none

/-! ## Literals -/

/-- A literal that is spelled with a point or an exponent and denotes a finite number. -/
def floatLiteral? (chars : List Char) : Option Float :=
  if chars.contains '.' || chars.contains 'e' then
    (Decimal.readFloat? chars).filter (fun x => !x.isNaN && !x.isInf)
  else none

/-- The narrowest value that a literal spells, blanks at both ends set aside. -/
def ofLiteral (s : String) : Value :=
  let chars := Text.trim s.toList
  match Decimal.readInt? chars with
  | some n => .int n
  | none =>
    match floatLiteral? chars with
    | some x => .float x
    | none =>
      let word := String.ofList chars
      if word = "true" then .bool true
      else if word = "false" then .bool false
      else .str word

/-! ## Comparison -/

mutual

/-- Equality with floating-point numbers compared as numbers. -/
def same : Value → Value → Bool
  | .bool a, .bool b => a == b
  | .int a, .int b => a == b
  | .float a, .float b => a == b
  | .str a, .str b => a == b
  | .map a, .map b => sameEntries a b
  | _, _ => false
termination_by structural a => a

/-- Whether two lists of entries agree key by key and value by value. -/
def sameEntries : List (String × Value) → List (String × Value) → Bool
  | [], [] => true
  | (key, value) :: rest, (key', value') :: rest' =>
    key == key' && value.same value' && sameEntries rest rest'
  | _, _ => false
termination_by structural a => a

end

/-- The order of two numbers; none if one of them is undefined. -/
def compareFloat (a b : Float) : Option Ordering :=
  if a < b then some .lt else if a == b then some .eq else if b < a then some .gt else none

/-- The order of two values: as numbers when both stand for one, otherwise as texts; maps have
    none. -/
def compare (a b : Value) : Option Ordering :=
  match a.toFloat?, b.toFloat? with
  | some x, some y => compareFloat x y
  | _, _ => if a.isMap || b.isMap then none else some (Ord.compare a.display b.display)

/-- Equality across spellings: the text `3` equals the number 3. -/
def looselyEquals (a b : Value) : Bool := a.same b || a.compare b == some .eq

end Value

end Theming
