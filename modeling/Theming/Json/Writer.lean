import Theming.Json.Basic
import Theming.Decimal.Shortest

set_option autoImplicit false

/-! # Writing JSON

Compact JSON texts: no blanks, fields in the order of the value. -/

namespace Theming.Json

/-! ## Strings -/

/-- One character inside a string. -/
def writtenChar (c : Char) : List Char :=
  if c = '"' then ['\\', '"']
  else if c = '\\' then ['\\', '\\']
  else if c = '\n' then ['\\', 'n']
  else if c = '\r' then ['\\', 'r']
  else if c = '\t' then ['\\', 't']
  else if c.toNat = 8 then ['\\', 'b']
  else if c.toNat = 12 then ['\\', 'f']
  else if c.toNat < 0x20 then
    let digits := Nat.toDigits 16 c.toNat
    ['\\', 'u', '0', '0'] ++ List.replicate (2 - digits.length) '0' ++ digits
  else [c]

/-- A string in quotes. -/
def writeString (s : String) : String :=
  String.ofList ('"' :: s.toList.flatMap writtenChar ++ ['"'])

/-! ## Numbers -/

/-- The text of a number. An exponent always has its sign. -/
def Numeral.write (n : Numeral) : String :=
  let sign := if n.negative then ['-'] else []
  let places :=
    match n.places with
    | some ds => '.' :: ds
    | none => []
  let power :=
    match n.power with
    | some (true, ds) => 'e' :: '-' :: ds
    | some (false, ds) => 'e' :: '+' :: ds
    | none => []
  String.ofList (sign ++ n.whole ++ places ++ power)

/-- The spelling of decimal digits: positional for magnitudes from `10 ^ -5` up to `10 ^ 16`, with
    at least one digit on each side of the point, otherwise with an exponent. -/
def Numeral.ofScaled (negative : Bool) (d : Decimal.Scaled) : Numeral :=
  let digits := Decimal.digitChars d.digits
  let lead := digits.length + d.exponent
  if -5 < lead ∧ lead ≤ 16 then
    let text := d.positional
    let places := (text.dropWhile (· != '.')).drop 1
    ⟨negative, text.takeWhile (· != '.'), some (if places.isEmpty then ['0'] else places), none⟩
  else
    let power := some (decide (lead - 1 < 0), Decimal.digitChars (lead - 1).natAbs)
    ⟨negative, digits.take 1, if digits.length ≤ 1 then none else some (digits.drop 1), power⟩

/-- A floating-point number; what is not finite becomes null. -/
def ofFloat (x : Float) : Json :=
  if x.isNaN || x.isInf then .null
  else .number (Numeral.ofScaled (Decimal.isNegative x) (Decimal.shortestOf x .toEven))

/-! ## Values -/

/-- Texts between brackets, separated by commas. -/
def between (opening closing : String) (parts : List String) : String :=
  opening ++ ",".intercalate parts ++ closing

mutual

/-- A value as compact text. -/
def write : Json → String
  | .null => "null"
  | .bool true => "true"
  | .bool false => "false"
  | .number n => n.write
  | .string s => writeString s
  | .array items => between "[" "]" (writeItems items)
  | .object fields => between "\x7b" "\x7d" (writeFields fields)
termination_by structural v => v

/-- The texts of the items of an array. -/
def writeItems : List Json → List String
  | [] => []
  | item :: rest => item.write :: writeItems rest
termination_by structural items => items

/-- The texts of the fields of an object. -/
def writeFields : List (String × Json) → List String
  | [] => []
  | (name, value) :: rest => (writeString name ++ ":" ++ value.write) :: writeFields rest
termination_by structural fields => fields

end

/-- A floating-point number as text. -/
def writeReal (x : Float) : String := (ofFloat x).write

end Theming.Json
