import Theming.Json.Basic

set_option autoImplicit false

/-! # Reading JSON

The grammar of JSON texts: one value with blanks around it. Every function takes the text that is
left and returns what it read with the text after it. -/

namespace Theming.Json

/-! ## Blanks and strings -/

/-- Skips the four blanks of the format. -/
def skipBlanks (s : List Char) : List Char :=
  s.dropWhile (fun c => c = ' ' || c = '\n' || c = '\t' || c = '\r')

/-- The value of a hexadecimal digit. -/
def hexValue? (c : Char) : Option Nat :=
  if c.isDigit then some (c.toNat - '0'.toNat)
  else if 'a' ≤ c ∧ c ≤ 'f' then some (c.toNat - 'a'.toNat + 10)
  else if 'A' ≤ c ∧ c ≤ 'F' then some (c.toNat - 'A'.toNat + 10)
  else none

/-- Four hexadecimal digits. -/
def hexFour? : List Char → Option (Nat × List Char)
  | a :: b :: c :: d :: rest => do
    let a ← hexValue? a
    let b ← hexValue? b
    let c ← hexValue? c
    let d ← hexValue? d
    return (((a * 16 + b) * 16 + c) * 16 + d, rest)
  | _ => none

/-- The character of a `\u` escape: a code unit that is no surrogate, or a high surrogate and the
    escape of a low one. -/
def unitEscape? (s : List Char) : Option (Char × List Char) := do
  let (unit, rest) ← hexFour? s
  if unit < 0xD800 || 0xE000 ≤ unit then return (Char.ofNat unit, rest)
  else if 0xDC00 ≤ unit then none
  else
    match rest with
    | '\\' :: 'u' :: more =>
      let (low, rest) ← hexFour? more
      if 0xDC00 ≤ low && low < 0xE000 then
        return (Char.ofNat (0x10000 + (unit - 0xD800) * 0x400 + (low - 0xDC00)), rest)
      else none
    | _ => none

/-- The character of an escape, after the backslash. -/
def escape? : List Char → Option (Char × List Char)
  | '"' :: rest => some ('"', rest)
  | '\\' :: rest => some ('\\', rest)
  | '/' :: rest => some ('/', rest)
  | 'b' :: rest => some ('\x08', rest)
  | 'f' :: rest => some ('\x0c', rest)
  | 'n' :: rest => some ('\n', rest)
  | 'r' :: rest => some ('\r', rest)
  | 't' :: rest => some ('\t', rest)
  | 'u' :: rest => unitEscape? rest
  | _ => none

/-- The rest of a string after its opening quote; `read` holds the characters so far, last one
    first. -/
def stringTail? : Nat → List Char → List Char → Option (String × List Char)
  | 0, _, _ => none
  | _ + 1, _, [] => none
  | fuel + 1, read, c :: rest =>
    if c = '"' then some (String.ofList read.reverse, rest)
    else if c = '\\' then
      match escape? rest with
      | some (d, rest) => stringTail? fuel (d :: read) rest
      | none => none
    else if c.toNat < 0x20 then none
    else stringTail? fuel (c :: read) rest

/-- A string after its opening quote. -/
def string? (s : List Char) : Option (String × List Char) := stringTail? (s.length + 1) [] s

/-! ## Numbers -/

/-- Digits in front of a text, at least one. -/
def digits? (s : List Char) : Option (List Char × List Char) :=
  let (digits, rest) := s.span Char.isDigit
  if digits.isEmpty then none else some (digits, rest)

/-- The exponent of a number, if there is one. -/
def power? : List Char → Option (Option (Bool × List Char) × List Char)
  | c :: rest =>
    if c = 'e' || c = 'E' then
      match rest with
      | '+' :: more => (digits? more).map (fun (ds, r) => (some (false, ds), r))
      | '-' :: more => (digits? more).map (fun (ds, r) => (some (true, ds), r))
      | _ => (digits? rest).map (fun (ds, r) => (some (false, ds), r))
    else some (none, c :: rest)
  | [] => some (none, [])

/-- A number without its sign: no superfluous leading zero, digits on both sides of a point. -/
def magnitude? (negative : Bool) (s : List Char) : Option (Numeral × List Char) := do
  let (whole, rest) ← digits? s
  if whole.length ≠ 1 ∧ whole.head? = some '0' then none
  else
    let (places, rest) ←
      match rest with
      | '.' :: more => (digits? more).map (fun (ds, r) => (some ds, r))
      | _ => some (none, rest)
    let (power, rest) ← power? rest
    return (⟨negative, whole, places, power⟩, rest)

/-! ## Values -/

/-- The text after a keyword. -/
def keyword? (word : List Char) (value : Json) (s : List Char) : Option (Json × List Char) :=
  if word.isPrefixOf s then some (value, s.drop word.length) else none

mutual

/-- A value with the blanks in front of it. -/
def value? : Nat → List Char → Option (Json × List Char)
  | 0, _ => none
  | fuel + 1, s =>
    match skipBlanks s with
    | [] => none
    | '"' :: rest => (string? rest).map (fun (t, r) => (.string t, r))
    | '[' :: rest =>
      match skipBlanks rest with
      | ']' :: r => some (.array [], r)
      | r => (items? fuel r).map (fun (vs, r) => (.array vs, r))
    | '\x7b' :: rest =>
      match skipBlanks rest with
      | '\x7d' :: r => some (.object [], r)
      | r => (fields? fuel r).map (fun (fs, r) => (.object fs, r))
    | '-' :: rest => (magnitude? true rest).map (fun (n, r) => (.number n, r))
    | 't' :: rest => keyword? ['r', 'u', 'e'] (.bool true) rest
    | 'f' :: rest => keyword? ['a', 'l', 's', 'e'] (.bool false) rest
    | 'n' :: rest => keyword? ['u', 'l', 'l'] .null rest
    | r => (magnitude? false r).map (fun (n, r) => (.number n, r))

/-- The items of an array from the first one to the closing bracket. -/
def items? : Nat → List Char → Option (List Json × List Char)
  | 0, _ => none
  | fuel + 1, s => do
    let (v, rest) ← value? fuel s
    match skipBlanks rest with
    | ',' :: more =>
      let (vs, rest) ← items? fuel more
      return (v :: vs, rest)
    | ']' :: more => return ([v], more)
    | _ => none

/-- The fields of an object from the first one to the closing brace. -/
def fields? : Nat → List Char → Option (List (String × Json) × List Char)
  | 0, _ => none
  | fuel + 1, s => do
    match skipBlanks s with
    | '"' :: more =>
      let (name, rest) ← string? more
      match skipBlanks rest with
      | ':' :: more =>
        let (v, rest) ← value? fuel more
        match skipBlanks rest with
        | ',' :: more =>
          let (fs, rest) ← fields? fuel more
          return ((name, v) :: fs, rest)
        | '\x7d' :: more => return ([(name, v)], more)
        | _ => none
      | _ => none
    | _ => none

end

/-- A JSON text: one value and nothing but blanks after it. -/
def read? (s : String) : Option Json := do
  let chars := s.toList
  let (v, rest) ← value? (2 * chars.length + 2) chars
  if (skipBlanks rest).isEmpty then some v else none

end Theming.Json
