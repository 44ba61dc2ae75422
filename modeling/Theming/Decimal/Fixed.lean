import Theming.Decimal.Reading
import Theming.Decimal.Shortest

set_option autoImplicit false

/-! # Exact arithmetic on floating-point numbers

Fixed numbers of decimal places, remainders and conversions to integers, computed on the exact
value of a number. -/

namespace Theming.Decimal

/-- The quotient rounded to the nearest integer, a tie to the even one. -/
def roundDiv (num den : Nat) : Nat :=
  let q := num / den
  let r := num % den
  if 2 * r < den then q else if den < 2 * r then q + 1 else if q % 2 = 0 then q else q + 1

/-- A finite number with a fixed number of decimal places. -/
def fixed (places : Nat) (x : Float) : String :=
  let (num, den) := (Binary.ofFloat x).overTen (-places)
  let digits := digitChars (roundDiv num den)
  let padded := List.replicate (places + 1 - digits.length) '0' ++ digits
  let cut := padded.length - places
  signed x (padded.take cut ++ '.' :: padded.drop cut)

/-- The remainder after dividing by a positive integer, with the sign of the dividend. -/
def remainder (x : Float) (divisor : Nat) : Float :=
  if x.isNaN || x.isInf then 0.0 / 0.0
  else
    let b := Binary.ofFloat x
    let rest := b.num % (divisor * b.den)
    let magnitude := Float.scaleB (Float.ofNat rest) (min b.exponent 0)
    if isNegative x then -magnitude else magnitude

/-- The remainder in the range from zero up to the divisor. -/
def wrap (x : Float) (divisor : Nat) : Float :=
  let r := remainder x divisor
  if r < 0.0 then r + Float.ofNat divisor else r

/-- The integer part, cut off to 64 bits with sign; zero for what is not a number. -/
def toInt64 (x : Float) : Int :=
  if x.isNaN then 0
  else if x.isInf then if isNegative x then -boundInt64 else boundInt64 - 1
  else
    let b := Binary.ofFloat x
    let magnitude : Int := (b.num / b.den : Nat)
    if isNegative x then max (-magnitude) (-boundInt64) else min magnitude (boundInt64 - 1)

/-- The number moved into a range; what is not a number stays. -/
def clamp (low high x : Float) : Float :=
  if x < low then low else if high < x then high else x

/-- Whether the number lies in a range, ends included. -/
def within (low high x : Float) : Bool := low ≤ x && x ≤ high

/-- Whether the number is neither infinite nor undefined. -/
def isFinite (x : Float) : Bool := !x.isNaN && !x.isInf

/-- The larger of two numbers; one that is not a number gives way. -/
def larger (x y : Float) : Float := if x < y || x.isNaN then y else x

/-- The smaller of two numbers; one that is not a number gives way. -/
def smaller (x y : Float) : Float := if y < x || x.isNaN then y else x

end Theming.Decimal
