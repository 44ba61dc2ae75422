import Theming.Toml.Number
import Theming.Toml.Text

set_option autoImplicit false

/-! # Reading TOML

A text is a list of lines: pairs of a key and a value, and headers that open tables. The pairs
behind a header go into its table. A key is never defined twice. -/

namespace Theming.Toml

/-! ## Values -/

mutual

/-- A value; `room` is how many containers may still be nested. -/
def value? : (fuel room : Nat) → List Char → Option (Toml × List Char)
  | 0, _, _ => none
  | fuel + 1, room, s =>
    match s with
    | 't' :: 'r' :: 'u' :: 'e' :: rest => some (.boolean true, rest)
    | 'f' :: 'a' :: 'l' :: 's' :: 'e' :: rest => some (.boolean false, rest)
    | '[' :: rest =>
      if room = 0 then none
      else (items? fuel (room - 1) rest).map (fun (items, rest) => (.array items, rest))
    | '\x7b' :: rest =>
      if room = 0 then none
      else do
        let (pairs, rest) ← pairs? fuel (room - 1) rest
        return (.table .inline (← placeAll pairs []), rest)
    | s =>
      match string? s with
      | some (text, rest) => some (.string (String.ofList text), rest)
      | none => (date? s).orElse (fun _ => number? s)

/-- The items of an array up to the closing bracket. A comma may follow the last one. -/
def items? : (fuel room : Nat) → List Char → Option (List Toml × List Char)
  | 0, _, _ => none
  | fuel + 1, room, s =>
    match skipLines false s with
    | ']' :: rest => some ([], rest)
    | s => do
      let (item, rest) ← value? fuel room s
      match skipLines false rest with
      | ',' :: rest =>
        let (items, rest) ← items? fuel room rest
        return (item :: items, rest)
      | ']' :: rest => return ([item], rest)
      | _ => none

/-- The pairs of a table between braces up to the closing one. -/
def pairs? : (fuel room : Nat) → List Char → Option (List (List String × Toml) × List Char)
  | 0, _, _ => none
  | fuel + 1, room, s =>
    match skipBlanks s with
    | '\x7d' :: rest => some ([], rest)
    | s => pairsTail? fuel room s

/-- The pairs of a table between braces from the first one up to the closing brace. -/
def pairsTail? : (fuel room : Nat) → List Char → Option (List (List String × Toml) × List Char)
  | 0, _, _ => none
  | fuel + 1, room, s => do
    let (key, rest) ← key? s
    let (value, rest) ← value? fuel room (skipBlanks (← mark? '=' rest))
    match skipBlanks rest with
    | ',' :: rest =>
      let (pairs, rest) ← pairsTail? fuel room rest
      return ((key, value) :: pairs, rest)
    | '\x7d' :: rest => return ([(key, value)], rest)
    | _ => none

end

/-! ## Lines -/

/-- What a line says. -/
inductive Line where
  | pair (key : List String) (value : Toml)
  /-- Opens a table. -/
  | header (path : List String)
  /-- Opens a row of an array of tables. -/
  | row (path : List String)
deriving Repr, Inhabited

/-- A line that says something, and the text after what it says. -/
def line? : List Char → Option (Line × List Char)
  | '[' :: '[' :: rest => do
    let (path, rest) ← key? rest
    return (.row path, ← Text.dropPrefix? [']', ']'] rest)
  | '[' :: rest => do
    let (path, rest) ← key? rest
    return (.header path, ← mark? ']' rest)
  | s => do
    let (key, rest) ← key? s
    let rest := skipBlanks (← mark? '=' rest)
    let (value, rest) ← value? (3 * rest.length + 3) maxDepth rest
    return (.pair key value, rest)

/-- The lines of a text. -/
def lines? : (fuel : Nat) → List Char → Option (List Line)
  | 0, _ => none
  | fuel + 1, s =>
    if (skipBlanks s).isEmpty then some []
    else
      match lineEnd? s with
      | some rest => lines? fuel rest
      | none => do
        let (line, rest) ← line? (skipBlanks s)
        let lines ← lines? fuel (← lineEnd? rest)
        return line :: lines

/-! ## Documents -/

/-- A header with the pairs behind it. -/
structure Section where
  path : List String
  /-- Whether it opens a row of an array of tables. -/
  isRow : Bool
  pairs : List (List String × Toml)
deriving Repr, Inhabited

/-- The pairs before the first header, and the sections. -/
def sections : List Line → List (List String × Toml) × List Section
  | [] => ([], [])
  | .pair key value :: rest => ((key, value) :: (sections rest).1, (sections rest).2)
  | .header path :: rest => ([], ⟨path, false, (sections rest).1⟩ :: (sections rest).2)
  | .row path :: rest => ([], ⟨path, true, (sections rest).1⟩ :: (sections rest).2)

/-- Puts the pairs of a section into the table that it opens. -/
def Section.apply (s : Section) (entries : Table Toml) : Option (Table Toml) :=
  match s.path.getLast? with
  | none => none
  | some key =>
    within (if s.isRow then openRow key s.pairs else openTable key s.pairs) s.path.dropLast entries

/-- The mark that may stand in front of a text. -/
def byteOrderMark : Char := '\ufeff'

/-- Reads a text. -/
def read? (text : String) : Option (Table Toml) := do
  let chars := (mark? byteOrderMark text.toList).getD text.toList
  let lines ← lines? (chars.length + 1) chars
  let (pairs, opened) := sections lines
  opened.foldlM (fun entries s => s.apply entries) (← placeAll pairs [])

end Theming.Toml
