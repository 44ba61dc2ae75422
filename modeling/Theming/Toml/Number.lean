import Theming.Decimal.Reading
import Theming.Json.Reader
import Theming.Text.Search
import Theming.Toml.Basic

set_option autoImplicit false

/-! # Numbers and dates of TOML

Every function takes the text that is left and returns what it read with the text after it. -/

namespace Theming.Toml

/-! ## Digits -/

/-- Digits of a class behind another one; an underscore may stand between two of them. -/
def moreDigits? (isDigit : Char → Bool) : List Char → Option (List Char × List Char)
  | [] => some ([], [])
  | ['_'] => none
  | '_' :: c :: rest =>
    if isDigit c then (moreDigits? isDigit rest).map (fun (ds, rest) => (c :: ds, rest)) else none
  | c :: rest =>
    if isDigit c then (moreDigits? isDigit rest).map (fun (ds, rest) => (c :: ds, rest))
    else some ([], c :: rest)

/-- At least one digit of a class. -/
def digits? (isDigit : Char → Bool) : List Char → Option (List Char × List Char)
  | [] => none
  | c :: rest =>
    if isDigit c then (moreDigits? isDigit rest).map (fun (ds, rest) => (c :: ds, rest)) else none

/-- The digits of a whole number without superfluous zeros in front. -/
def whole? : List Char → Option (List Char × List Char)
  | '0' :: rest => some (['0'], rest)
  | s => digits? Char.isDigit s

/-- A sign, negative or not, that may be missing. -/
def sign : List Char → Bool × List Char
  | '+' :: rest => (false, rest)
  | '-' :: rest => (true, rest)
  | s => (false, s)

/-! ## Numbers -/

/-- An integer in another base, after its mark. -/
def based? (base : Nat) (s : List Char) : Option (Toml × List Char) := do
  let isDigit (c : Char) : Bool :=
    match Json.hexValue? c with
    | some d => d < base
    | none => false
  let (digits, rest) ← digits? isDigit s
  let n := digits.foldl (fun n c => base * n + (Json.hexValue? c).getD 0) 0
  return (.integer (← Decimal.checkInt64 n), rest)

/-- The exponent of a number after its letter. -/
def power? (s : List Char) : Option (Int × List Char) :=
  let (negative, rest) := sign s
  (digits? Char.isDigit rest).map (fun (digits, rest) =>
    let n := Decimal.digitsValue digits
    (if negative then -(n : Int) else n, rest))

/-- The exponent of a number, if there is one. -/
def powerPart? : List Char → Option (Int × List Char)
  | 'e' :: rest => power? rest
  | 'E' :: rest => power? rest
  | s => some (0, s)

/-- A floating-point number from its parts. One that is too large is refused, unless it is
    negative. -/
def float? (negative : Bool) (whole places : List Char) (power : Int) : Option Toml :=
  let magnitude := Decimal.nearest (Decimal.digitsValue (whole ++ places)) (power - places.length)
  if negative then some (.float (-magnitude))
  else if magnitude.isInf then none
  else some (.float magnitude)

/-- A number in base ten, after its sign. -/
def decimal? (negative : Bool) (s : List Char) : Option (Toml × List Char) := do
  let (whole, rest) ← whole? s
  match rest with
  | '.' :: rest =>
    let (places, rest) ← digits? Char.isDigit rest
    let (power, rest) ← powerPart? rest
    return (← float? negative whole places power, rest)
  | c :: rest =>
    if c = 'e' || c = 'E' then
      let (power, rest) ← power? rest
      return (← float? negative whole [] power, rest)
    else
      let n := Decimal.digitsValue whole
      return (.integer (← Decimal.checkInt64 (if negative then -n else n)), c :: rest)
  | [] =>
    let n := Decimal.digitsValue whole
    return (.integer (← Decimal.checkInt64 (if negative then -n else n)), [])

/-- A number. -/
def number? : List Char → Option (Toml × List Char)
  | '0' :: 'x' :: rest => based? 16 rest
  | '0' :: 'o' :: rest => based? 8 rest
  | '0' :: 'b' :: rest => based? 2 rest
  | s =>
    let (negative, rest) := sign s
    match rest with
    | 'i' :: 'n' :: 'f' :: rest =>
      some (.float (if negative then -(1.0 / 0.0) else 1.0 / 0.0), rest)
    | 'n' :: 'a' :: 'n' :: rest => some (.float (0.0 / 0.0), rest)
    | _ => decimal? negative rest

/-! ## Dates and times -/

/-- The number that a count of digits spells, if it lies in a range. -/
def field? (count low high : Nat) (s : List Char) : Option (Nat × List Char) :=
  let digits := s.take count
  if digits.length = count ∧ digits.all Char.isDigit then
    let n := Decimal.digitsValue digits
    if low ≤ n ∧ n ≤ high then some (n, s.drop count) else none
  else none

/-- The text after a mark. -/
def mark? (c : Char) (s : List Char) : Option (List Char) := Text.dropPrefix? [c] s

/-- The number of days of a month. -/
def daysIn (year month : Nat) : Nat :=
  if month = 2 then
    if year % 4 = 0 ∧ (year % 100 ≠ 0 ∨ year % 400 = 0) then 29 else 28
  else if month = 4 ∨ month = 6 ∨ month = 9 ∨ month = 11 then 30
  else 31

/-- The text after a time of day. -/
def time? (s : List Char) : Option (List Char) := do
  let (_, rest) ← field? 2 0 23 s
  let (_, rest) ← field? 2 0 59 (← mark? ':' rest)
  let (_, rest) ← field? 2 0 60 (← mark? ':' rest)
  match rest with
  | '.' :: places =>
    if (places.head?.map Char.isDigit).getD false then return places.dropWhile Char.isDigit
    else return rest
  | _ => return rest

/-- The text after the offset of a time, if there is one. -/
def skipOffset (s : List Char) : List Char :=
  match s with
  | 'Z' :: rest => rest
  | 'z' :: rest => rest
  | c :: rest =>
    if c = '+' || c = '-' then
      (do
        let (_, rest) ← field? 2 0 23 rest
        let (_, rest) ← field? 2 0 59 (← mark? ':' rest)
        return rest : Option (List Char)).getD s
    else s
  | [] => []

/-- The text after the time that may follow a date. -/
def skipTime (s : List Char) : List Char :=
  match s with
  | c :: rest =>
    if c = 'T' || c = 't' || c = ' ' then ((time? rest).map skipOffset).getD s else s
  | [] => []

/-- The text after a date, with or without a time. -/
def day? (s : List Char) : Option (List Char) := do
  let (year, rest) ← field? 4 0 9999 s
  let (month, rest) ← field? 2 1 12 (← mark? '-' rest)
  let (_, rest) ← field? 2 1 (daysIn year month) (← mark? '-' rest)
  return skipTime rest

/-- A date, a time of day or both. -/
def date? (s : List Char) : Option (Toml × List Char) :=
  ((day? s).orElse (fun _ => time? s)).map (fun rest => (.date, rest))

end Theming.Toml
