import Theming.Decimal.Reading

set_option autoImplicit false

/-! # JSON values

A JSON text as a value. Objects keep every field in the order of the text, also repeated ones, and
numbers keep their digits, so that each use can decide what it accepts. -/

namespace Theming

/-- A number as it is spelled. -/
structure Json.Numeral where
  negative : Bool
  whole : List Char
  places : Option (List Char)
  /-- The sign, negative or not, and the digits of the exponent. -/
  power : Option (Bool × List Char)
deriving Repr, DecidableEq

/-- A JSON value. -/
inductive Json where
  | null
  | bool (b : Bool)
  | number (n : Json.Numeral)
  | string (s : String)
  | array (items : List Json)
  | object (fields : List (String × Json))
deriving Repr, Inhabited

namespace Json

/-! ## The value of a number -/

/-- A number read from its digits: an integer of 64 bits, with or without sign, or a
    floating-point number. -/
inductive Amount where
  | whole (n : Int)
  | real (x : Float)
deriving Repr, DecidableEq

/-- The least natural number that does not fit 64 bits. -/
def significandBound : Nat := Nat.pow 2 64

/-- Appends digits to a significand as long as it fits 64 bits; the digits left over are counted
    and dropped. Returns the significand, how many digits it took and how many were left. -/
def absorb (significand taken : Nat) : List Char → Nat × Nat × Nat
  | [] => (significand, taken, 0)
  | c :: rest =>
    let next := 10 * significand + (c.toNat - '0'.toNat)
    if next < significandBound then absorb next (taken + 1) rest
    else (significand, taken, rest.length + 1)

/-- The power `10 ^ k` as a floating-point number. -/
def tenTo (k : Nat) : Float := Float.ofScientific 1 false k

/-- The significand scaled by a power of ten, one multiplication or division by a power up to
    `10 ^ 308` at a time; nothing if the result overflows. -/
def scaled? : Nat → Float → Int → Option Float
  | 0, x, _ => some x
  | fuel + 1, x, exponent =>
    if exponent.natAbs ≤ 308 then
      if 0 ≤ exponent then
        let y := x * tenTo exponent.natAbs
        if y.isInf then none else some y
      else some (x / tenTo exponent.natAbs)
    else if x == 0.0 then some x
    else if 0 ≤ exponent then none
    else scaled? fuel (x / tenTo 308) (exponent + 308)

/-- The largest exponent that is still looked at. -/
def maxPower : Nat := 2147483647

/-- A floating-point number from its significand, its scale and the written exponent. -/
def Numeral.real? (n : Numeral) (significand : Nat) (scale : Int) : Option Float :=
  let magnitude :=
    match n.power with
    | none => scaled? 8 (Float.ofNat significand) scale
    | some (down, digits) =>
      let power := Decimal.digitsValue digits
      if maxPower < power then
        if significand = 0 || down then some 0.0 else none
      else scaled? 8 (Float.ofNat significand) (if down then scale - power else scale + power)
  magnitude.map (fun x => if n.negative then -x else x)

/-- The value of a number: an integer when it is spelled as one and fits 64 bits, otherwise a
    floating-point number; nothing if it is too large. -/
def Numeral.amount? (n : Numeral) : Option Amount :=
  let (significand, _, left) := absorb 0 0 n.whole
  match n.places, n.power with
  | none, none =>
    if left ≠ 0 then (n.real? significand left).map .real
    else if !n.negative then some (.whole significand)
    else if significand ≠ 0 ∧ significand ≤ Decimal.boundInt64 then some (.whole (-significand))
    else some (.real (-(Float.ofNat significand)))
  | places, _ =>
    let (significand, taken, _) := absorb significand 0 (places.getD [])
    (n.real? significand ((left : Int) - taken)).map .real

/-- The spelling of an integer. -/
def Numeral.ofInt (n : Int) : Numeral :=
  ⟨n < 0, Nat.toDigits 10 n.natAbs, none, none⟩

/-! ## Depth -/

mutual

/-- How many containers are nested in a value, itself included. -/
def depth : Json → Nat
  | .array items => depthItems items + 1
  | .object fields => depthFields fields + 1
  | _ => 0
termination_by structural v => v

/-- The greatest depth among the items of an array. -/
def depthItems : List Json → Nat
  | [] => 0
  | item :: rest => max item.depth (depthItems rest)
termination_by structural items => items

/-- The greatest depth among the fields of an object. -/
def depthFields : List (String × Json) → Nat
  | [] => 0
  | (_, value) :: rest => max value.depth (depthFields rest)
termination_by structural fields => fields

end

/-- The deepest nesting that is accepted. -/
def maxDepth : Nat := 127

/-! ## Access -/

/-- The field of an object; the last one of a repeated name. -/
def field? (name : String) : Json → Option Json
  | .object fields => (fields.reverse.find? (fun f => f.1 = name)).map (·.2)
  | _ => none

/-- A text. -/
def asString? : Json → Option String
  | .string s => some s
  | _ => none

/-- A truth value. -/
def asBool? : Json → Option Bool
  | .bool b => some b
  | _ => none

/-- A number as a floating-point number. -/
def asFloat? : Json → Option Float
  | .number n =>
    match n.amount? with
    | some (.whole i) => some (Float.ofInt i)
    | some (.real x) => some x
    | none => none
  | _ => none

/-- A natural number below `2 ^ 64`. -/
def asNat? : Json → Option Nat
  | .number n =>
    match n.amount? with
    | some (.whole i) => if 0 ≤ i then some i.toNat else none
    | _ => none
  | _ => none

/-- An integer. -/
def ofInt (n : Int) : Json := .number (Numeral.ofInt n)

/-- A natural number. -/
def ofNat (n : Nat) : Json := .number (Numeral.ofInt n)

end Json

end Theming
