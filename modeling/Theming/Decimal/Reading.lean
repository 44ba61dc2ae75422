set_option autoImplicit false

/-! # Reading decimals

Two grammars for numbers in text. `readInt?` reads a signed 64-bit integer, `readFloat?` a
floating-point number, correctly rounded. -/

namespace Theming.Decimal

/-! ## Digits -/

/-- The value of a list of decimal digits. -/
def digitsValue (digits : List Char) : Nat :=
  digits.foldl (fun n c => 10 * n + (c.toNat - '0'.toNat)) 0

/-- Splits off the decimal digits in front. -/
def takeDigits (s : List Char) : List Char × List Char := s.span Char.isDigit

/-! ## Integers -/

/-- The least natural number that does not fit 64 bits with sign. -/
def boundInt64 : Nat := Nat.pow 2 63

/-- Whether an integer fits 64 bits with sign. -/
def fitsInt64 (n : Int) : Bool := -boundInt64 ≤ n && n < boundInt64

/-- A value that fits 64 bits with sign, or nothing. -/
def checkInt64 (n : Int) : Option Int := if fitsInt64 n then some n else none

/-- One or more digits and nothing else. -/
def readNat? (s : List Char) : Option Nat :=
  if !s.isEmpty && s.all Char.isDigit then some (digitsValue s) else none

/-- An optional sign and digits that fit 64 bits. -/
def readInt? : List Char → Option Int
  | '+' :: s => (readNat? s).bind (fun n => checkInt64 n)
  | '-' :: s => (readNat? s).bind (fun n => checkInt64 (-n))
  | s => (readNat? s).bind (fun n => checkInt64 n)

/-! ## Floating-point numbers -/

/-- The number nearest to `digits * 10 ^ exponent`. Magnitudes far outside the range of the format
    are settled without computing the power. -/
def nearest (digits : Nat) (exponent : Int) : Float :=
  if digits = 0 then 0.0
  else
    let size := (Nat.log2 digits : Int) * 30103 / 100000 + exponent
    if 400 < size then 1.0 / 0.0
    else if size < -400 then 0.0
    else if 0 ≤ exponent then Float.ofScientific digits false exponent.toNat
    else Float.ofScientific digits true (-exponent).toNat

/-- The exponent part after its letter: an optional sign and digits. -/
def readExponent? : List Char → Option Int
  | '+' :: s => (readNat? s).map (fun n => (n : Int))
  | '-' :: s => (readNat? s).map (fun n => -(n : Int))
  | s => (readNat? s).map (fun n => (n : Int))

/-- The part after the mantissa digits: nothing, or an exponent. -/
def readTail? : List Char → Option Int
  | [] => some 0
  | c :: s => if c = 'e' || c = 'E' then readExponent? s else none

/-- An unsigned number: digits with an optional point, at least one digit in all, and an optional
    exponent; or a name for an infinity or for no number. -/
def readMagnitude? (s : List Char) : Option Float :=
  let name := s.map Char.toLower
  if name = ['i', 'n', 'f'] || name = ['i', 'n', 'f', 'i', 'n', 'i', 't', 'y'] then some (1.0 / 0.0)
  else if name = ['n', 'a', 'n'] then some (0.0 / 0.0)
  else
    let (whole, rest) := takeDigits s
    let (places, rest) :=
      match rest with
      | '.' :: more => takeDigits more
      | _ => ([], rest)
    if whole.isEmpty && places.isEmpty then none
    else
      (readTail? rest).map
        (fun e => nearest (digitsValue (whole ++ places)) (e - places.length))

/-- A floating-point number: an optional sign and a magnitude. -/
def readFloat? : List Char → Option Float
  | '+' :: s => readMagnitude? s
  | '-' :: s => (readMagnitude? s).map (fun x => -x)
  | s => readMagnitude? s

end Theming.Decimal
