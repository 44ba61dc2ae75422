set_option autoImplicit false

/-! # Shortest decimals

The shortest decimal that reads back to a binary floating-point number, found by exact integer
arithmetic: a positive finite number is `mantissa * 2 ^ exponent`; the decimals that round to it
form an interval; for 1, 2, … digits the number's two neighbours on that decimal grid are tried. -/

namespace Theming.Decimal

/-! ## Numbers -/

/-- The positive finite number `mantissa * 2 ^ exponent`. -/
structure Binary where
  mantissa : Nat
  exponent : Int
  /-- The gap to the number below is half the gap to the number above. -/
  narrowBelow : Bool
deriving Repr, DecidableEq

/-- The decimal `digits * 10 ^ exponent`. -/
structure Scaled where
  digits : Nat
  exponent : Int
deriving Repr, DecidableEq

/-- The bit above the fraction field: the leading bit of a normal mantissa. -/
def leadingBit : Nat := Nat.pow 2 52

/-- The bit that holds the sign. -/
def signBit : Nat := Nat.pow 2 63

/-- Decodes the exponent and fraction fields of a finite number, given without its sign. -/
def Binary.ofBits (bits : Nat) : Binary :=
  let field : Nat := bits / leadingBit
  let fraction : Nat := bits % leadingBit
  if field = 0 then ⟨fraction, -1074, false⟩
  else ⟨leadingBit + fraction, (field : Int) - 1075, fraction == 0 && 1 < field⟩

/-- The magnitude of a finite number. -/
def Binary.ofFloat (x : Float) : Binary := Binary.ofBits (x.toBits.toNat % signBit)

/-- The numerator of the number as a quotient of naturals. -/
def Binary.num (x : Binary) : Nat := x.mantissa * Nat.pow 2 x.exponent.toNat

/-- The denominator of the number as a quotient of naturals. -/
def Binary.den (x : Binary) : Nat := Nat.pow 2 (-x.exponent).toNat

/-! ## The interval of decimals that round to a number -/

/-- Compares `a * 10 ^ i` with `b * 2 ^ j`. -/
def compareScaled (a : Nat) (i : Int) (b : Nat) (j : Int) : Ordering :=
  compare (a * Nat.pow 10 i.toNat * Nat.pow 2 (-j).toNat)
    (b * Nat.pow 2 j.toNat * Nat.pow 10 (-i).toNat)

/-- Whether the decimal rounds to the number: it lies between the midpoints to the neighbours, the
    midpoints included exactly when the mantissa is even. -/
def Binary.readsBack (x : Binary) (d : Scaled) : Bool :=
  let below := 4 * x.mantissa - (if x.narrowBelow then 1 else 2)
  let above := 4 * x.mantissa + 2
  let even := x.mantissa % 2 == 0
  let low := compareScaled d.digits d.exponent below (x.exponent - 2)
  let high := compareScaled d.digits d.exponent above (x.exponent - 2)
  (low == .gt || even && low == .eq) && (high == .lt || even && high == .eq)

/-! ## The search -/

/-- The number divided by `10 ^ k`, as a quotient of naturals. -/
def Binary.overTen (x : Binary) (k : Int) : Nat × Nat :=
  (x.num * Nat.pow 10 (-k).toNat, x.den * Nat.pow 10 k.toNat)

/-- Whether the number is less than `10 ^ k`. -/
def Binary.belowTen (x : Binary) (k : Int) : Bool :=
  let (num, den) := x.overTen k
  num < den

/-- The least `k` with the number below `10 ^ k`, searched upwards from a lower estimate. -/
def Binary.scaleFrom (x : Binary) : Nat → Int → Int
  | 0, k => k
  | steps + 1, k => if x.belowTen k then k else x.scaleFrom steps (k + 1)

/-- The least `k` with the number below `10 ^ k`. -/
def Binary.scale (x : Binary) : Int :=
  let size := (Nat.log2 x.mantissa : Int) + x.exponent
  x.scaleFrom 5 (size * 30103 / 100000 - 1)

/-- What becomes of a number halfway between two decimals. -/
inductive Tie where
  | up
  | toEven
deriving Repr, DecidableEq

/-- Whether a remainder `rest` of `den`, over the lower digits `lower`, is rounded down. -/
def Tie.down (tie : Tie) (rest den lower : Nat) : Bool :=
  match tie with
  | .up => 2 * rest < den
  | .toEven => 2 * rest < den || (2 * rest == den && lower % 2 == 0)

/-- The decimal with `n` digits that reads back, if there is one: of the number's two neighbours on
    the grid of `n` digits the closer one. -/
def Binary.onGrid? (x : Binary) (tie : Tie) (k : Int) (n : Nat) : Option Scaled :=
  let step := k - n
  let (num, den) := x.overTen step
  let lower : Scaled := ⟨num / den, step⟩
  let upper : Scaled := ⟨num / den + 1, step⟩
  match x.readsBack lower, x.readsBack upper with
  | true, true => if tie.down (num % den) den (num / den) then some lower else some upper
  | true, false => some lower
  | false, true => some upper
  | false, false => none

/-- Moves trailing zeros of the digits into the exponent. -/
def Scaled.strip : Nat → Scaled → Scaled
  | 0, d => d
  | fuel + 1, d =>
    if d.digits ≠ 0 ∧ d.digits % 10 = 0 then Scaled.strip fuel ⟨d.digits / 10, d.exponent + 1⟩
    else d

/-- The number itself, as a decimal. -/
def Binary.exact (x : Binary) : Scaled :=
  ⟨x.num * Nat.pow 5 (-x.exponent).toNat, min x.exponent 0⟩

/-- The shortest decimal that reads back, and the closest of those. Seventeen digits always suffice;
    should none be found, the exact value is returned. -/
def Binary.shortest (x : Binary) (tie : Tie) : Scaled :=
  let k := x.scale
  let found := (List.range 17).findSome? (fun n => x.onGrid? tie k (n + 1))
  Scaled.strip 400 (found.getD x.exact)

/-! ## Digits as text -/

/-- The decimal digits of a natural number. -/
def digitChars (n : Nat) : List Char := Nat.toDigits 10 n

/-- A decimal in positional notation, without exponent and without a superfluous point. -/
def Scaled.positional (d : Scaled) : List Char :=
  let digits := digitChars d.digits
  if 0 ≤ d.exponent then digits ++ List.replicate d.exponent.toNat '0'
  else
    let places := (-d.exponent).toNat
    if places < digits.length then
      digits.take (digits.length - places) ++ '.' :: digits.drop (digits.length - places)
    else '0' :: '.' :: (List.replicate (places - digits.length) '0' ++ digits)

/-! ## Floating-point numbers -/

/-- Whether the sign bit is set. -/
def isNegative (x : Float) : Bool := signBit ≤ x.toBits.toNat

/-- The shortest decimal of the magnitude of a finite number. -/
def shortestOf (x : Float) (tie : Tie) : Scaled :=
  let b := Binary.ofFloat x
  if b.mantissa = 0 then ⟨0, 0⟩ else b.shortest tie

/-- Writes the sign of a number in front of the text of its magnitude. -/
def signed (x : Float) (magnitude : List Char) : String :=
  String.ofList (if isNegative x then '-' :: magnitude else magnitude)

/-- The plain text of a number: shortest digits, the upper ones of two equally close, always
    positional, no superfluous point. -/
def text (x : Float) : String :=
  if x.isNaN then "NaN"
  else if x.isInf then signed x ['i', 'n', 'f']
  else signed x (shortestOf x .up).positional

end Theming.Decimal
