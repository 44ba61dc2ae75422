import Theming.Json.Reader
import Theming.Text.Search

set_option autoImplicit false

/-! # Strings, keys and blanks of TOML

Every function takes the text that is left and returns what it read with the text after it. -/

namespace Theming.Toml

/-! ## Characters -/

/-- A blank inside a line. -/
def isBlank (c : Char) : Bool := c = ' ' || c = '\t'

/-- A character that may stand in a comment, and in a string as it is: a tab or no control
    character of ASCII. -/
def isTextChar (c : Char) : Bool := c = '\t' || (0x20 ≤ c.toNat && c.toNat ≠ 0x7F)

/-- A character of a key without quotes. -/
def isBareChar (c : Char) : Bool := c.isAlphanum || c = '_' || c = '-'

/-! ## Blanks and the ends of lines -/

/-- Skips the blanks inside a line. -/
def skipBlanks (s : List Char) : List Char := s.dropWhile isBlank

/-- The text after a line feed, which may have a carriage return before it. -/
def newline? : List Char → Option (List Char)
  | '\n' :: rest => some rest
  | '\r' :: '\n' :: rest => some rest
  | _ => none

/-- Skips a comment. -/
def skipComment : List Char → List Char
  | '#' :: rest => rest.dropWhile isTextChar
  | s => s

/-- The text after the line, if nothing but blanks and a comment is left on it. -/
def lineEnd? (s : List Char) : Option (List Char) :=
  match skipComment (skipBlanks s) with
  | [] => some []
  | rest => newline? rest

/-- Skips blanks and line feeds. -/
def skipBreaks : List Char → List Char
  | [] => []
  | '\n' :: rest => skipBreaks rest
  | '\r' :: '\n' :: rest => skipBreaks rest
  | c :: rest => if isBlank c then skipBreaks rest else c :: rest

/-- Skips blanks, line feeds and comments; `inside` tells whether a comment has begun. -/
def skipLines (inside : Bool) : List Char → List Char
  | [] => []
  | '\n' :: rest => skipLines false rest
  | '\r' :: '\n' :: rest => skipLines false rest
  | c :: rest =>
    if inside then if isTextChar c then skipLines true rest else c :: rest
    else if c = '#' then skipLines true rest
    else if isBlank c then skipLines false rest
    else c :: rest

/-! ## Escapes -/

/-- The number that a count of hexadecimal digits spells. -/
def hexNumber? : (count read : Nat) → List Char → Option (Nat × List Char)
  | 0, read, s => some (read, s)
  | _ + 1, _, [] => none
  | count + 1, read, c :: rest => do hexNumber? count (16 * read + (← Json.hexValue? c)) rest

/-- The character whose number is spelled by a count of hexadecimal digits. -/
def scalar? (count : Nat) (s : List Char) : Option (Char × List Char) := do
  let (n, rest) ← hexNumber? count 0 s
  if n.isValidChar then some (Char.ofNat n, rest) else none

/-- The character of an escape, after the backslash. -/
def escape? : List Char → Option (Char × List Char)
  | '"' :: rest => some ('"', rest)
  | '\\' :: rest => some ('\\', rest)
  | 'b' :: rest => some ('\x08', rest)
  | 'f' :: rest => some ('\x0c', rest)
  | 'n' :: rest => some ('\n', rest)
  | 'r' :: rest => some ('\r', rest)
  | 't' :: rest => some ('\t', rest)
  | 'u' :: rest => scalar? 4 rest
  | 'U' :: rest => scalar? 8 rest
  | _ => none

/-! ## Strings on one line -/

/-- The rest of a string with escapes after its opening quote. -/
def escapedTail? : (fuel : Nat) → List Char → Option (List Char × List Char)
  | 0, _ => none
  | _ + 1, [] => none
  | fuel + 1, c :: rest =>
    if c = '"' then some ([], rest)
    else if c = '\\' then do
      let (d, rest) ← escape? rest
      let (text, rest) ← escapedTail? fuel rest
      return (d :: text, rest)
    else if isTextChar c then do
      let (text, rest) ← escapedTail? fuel rest
      return (c :: text, rest)
    else none

/-- A string with escapes, after its opening quote. -/
def escaped? (s : List Char) : Option (List Char × List Char) := escapedTail? (s.length + 1) s

/-- A string without escapes, after its opening quote. -/
def literal? (s : List Char) : Option (List Char × List Char) :=
  match s.span (fun c => isTextChar c && c ≠ '\x27') with
  | (text, '\x27' :: rest) => some (text, rest)
  | _ => none

/-! ## Strings over several lines -/

/-- The most quotes that stand together at the end of a string over several lines: two of its own
    and the three that close it. -/
def maxQuotes : Nat := 5

/-- The rest of a string over several lines. One or two quotes are text, three close the string. A
    backslash at the end of a line skips to the next text. -/
def blockTail? (quote : Char) : (fuel : Nat) → List Char → Option (List Char × List Char)
  | 0, _ => none
  | _ + 1, [] => none
  | fuel + 1, c :: rest =>
    let followedBy (text : List Char) (rest : List Char) : Option (List Char × List Char) :=
      (blockTail? quote fuel rest).map (fun (more, rest) => (text ++ more, rest))
    if c = quote then
      let (more, rest) := rest.span (· = quote)
      let quotes := more.length + 1
      if quotes < 3 then followedBy (List.replicate quotes quote) rest
      else if quotes ≤ maxQuotes then some (List.replicate (quotes - 3) quote, rest)
      else none
    else if c = '\\' && quote = '"' then
      match newline? (skipBlanks rest) with
      | some rest => followedBy [] (skipBreaks rest)
      | none => (escape? rest).bind (fun (d, rest) => followedBy [d] rest)
    else
      match newline? (c :: rest) with
      | some rest => followedBy ['\n'] rest
      | none => if isTextChar c then followedBy [c] rest else none

/-- A string over several lines, after its opening quotes. A line feed right behind them is no
    text. -/
def block? (quote : Char) (s : List Char) : Option (List Char × List Char) :=
  blockTail? quote (s.length + 1) ((newline? s).getD s)

/-- A string of any kind. -/
def string? : List Char → Option (List Char × List Char)
  | '"' :: '"' :: '"' :: rest => block? '"' rest
  | '\x27' :: '\x27' :: '\x27' :: rest => block? '\x27' rest
  | '"' :: rest => escaped? rest
  | '\x27' :: rest => literal? rest
  | _ => none

/-! ## Keys -/

/-- One part of a key: a string on one line, or characters without quotes. -/
def keyPart? : List Char → Option (List Char × List Char)
  | '"' :: rest => escaped? rest
  | '\x27' :: rest => literal? rest
  | s =>
    let (part, rest) := s.span isBareChar
    if part.isEmpty then none else some (part, rest)

/-- The parts of a dotted key, with blanks around them. -/
def keyParts? : (fuel : Nat) → List Char → Option (List String × List Char)
  | 0, _ => none
  | fuel + 1, s => do
    let (part, rest) ← keyPart? (skipBlanks s)
    match skipBlanks rest with
    | '.' :: rest =>
      let (parts, rest) ← keyParts? fuel rest
      return (String.ofList part :: parts, rest)
    | rest => return ([String.ofList part], rest)

/-- The most parts of a key, and the deepest nesting of values. -/
def maxDepth : Nat := 79

/-- A dotted key, with blanks around its parts. -/
def key? (s : List Char) : Option (List String × List Char) := keyParts? maxDepth s

end Theming.Toml
