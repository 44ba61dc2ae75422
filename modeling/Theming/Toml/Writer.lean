import Theming.Decimal.Shortest
import Theming.Toml.Basic

set_option autoImplicit false

/-! # Writing TOML

Strings and numbers as TOML spells them. A string takes the plainest quotes that can hold it. -/

namespace Theming.Toml

/-! ## Strings -/

/-- A character that only an escape can spell. -/
def isCode (c : Char) : Bool := (c.toNat < 0x20 && c ≠ '\t' && c ≠ '\n') || c.toNat = 0x7F

/-- The longest run of a character. -/
def longestRun (c : Char) : (current : Nat) → List Char → Nat
  | current, [] => current
  | current, d :: rest =>
    if d = c then longestRun c (current + 1) rest else max current (longestRun c 0 rest)

/-- The quotes of a string. -/
inductive Quotes where
  /-- One line with escapes. -/
  | escaped
  /-- One line as it is. -/
  | literal
  /-- Several lines with escapes. -/
  | escapedBlock
  /-- Several lines as they are. -/
  | literalBlock
deriving Repr, DecidableEq

/-- The plainest quotes that can hold a text: no escape if there is a way without, and one line if
    the text has only one. -/
def Quotes.forText (s : List Char) : Quotes :=
  let hasCodes := s.any isCode
  let hasBackslash := s.contains '\\'
  let hasNewline := s.contains '\n'
  let doubles := longestRun '"' 0 s
  let singles := longestRun '\x27' 0 s
  if !hasCodes && !hasBackslash && doubles = 0 && !hasNewline then .escaped
  else if !hasCodes && singles = 0 && !hasNewline then .literal
  else if !hasCodes && !hasBackslash && doubles ≤ 2 then .escapedBlock
  else if !hasCodes && singles ≤ 2 then .literalBlock
  else if hasNewline then .escapedBlock
  else .escaped

/-- The escape of a character with four hexadecimal digits. -/
def codeEscape (c : Char) : List Char :=
  let digits := (Nat.toDigits 16 c.toNat).map Char.toUpper
  ['\\', 'u'] ++ List.replicate (4 - digits.length) '0' ++ digits

/-- One character other than a quote and a line feed between quotes with escapes. -/
def escapedChar (c : Char) : List Char :=
  if c = '\\' then ['\\', '\\']
  else if c = '\t' then ['\\', 't']
  else if c = '\r' then ['\\', 'r']
  else if c.toNat = 8 then ['\\', 'b']
  else if c.toNat = 12 then ['\\', 'f']
  else if isCode c then codeEscape c
  else [c]

/-- A text on one line with escapes. -/
def escapedLine (s : List Char) : List Char :=
  s.flatMap (fun c =>
    if c = '"' then ['\\', '"'] else if c = '\n' then ['\\', 'n'] else escapedChar c)

/-- A text over several lines with escapes. Of three quotes together the last one is escaped;
    `quotes` stand in front without an escape. -/
def escapedLines : (quotes : Nat) → List Char → List Char
  | _, [] => []
  | quotes, c :: rest =>
    if c = '"' then
      if quotes < 2 then '"' :: escapedLines (quotes + 1) rest
      else '\\' :: '"' :: escapedLines 0 rest
    else if c = '\n' then '\n' :: escapedLines 0 rest
    else escapedChar c ++ escapedLines 0 rest

/-- A string over several lines; one with a line feed begins on a line of its own. -/
def writtenBlock (quote : Char) (s body : List Char) : List Char :=
  let quotes := [quote, quote, quote]
  quotes ++ (if s.contains '\n' then ['\n'] else []) ++ body ++ quotes

/-- A string. -/
def writeString (text : String) : String :=
  let s := text.toList
  String.ofList (match Quotes.forText s with
    | .escaped => '"' :: escapedLine s ++ ['"']
    | .literal => '\x27' :: s ++ ['\x27']
    | .escapedBlock => writtenBlock '"' s (escapedLines 0 s)
    | .literalBlock => writtenBlock '\x27' s s)

/-! ## Numbers -/

/-- A finite floating-point number; a whole one has a zero behind its point. -/
def writeFloat (x : Float) : String :=
  let text := Decimal.text x
  if text.toList.contains '.' then text else text ++ ".0"

end Theming.Toml
