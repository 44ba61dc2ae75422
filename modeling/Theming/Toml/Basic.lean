import Theming.Table

set_option autoImplicit false

/-! # TOML values

A TOML text as a value. A table remembers how it came about, because that decides whether it may be
opened again: by a header, by a dotted key, or not at all. -/

namespace Theming

/-- How a table came about. -/
inductive Toml.Origin where
  /-- By a header of its own. -/
  | header
  /-- As a part of the path of a header. -/
  | implicit
  /-- As a part of a dotted key. -/
  | dotted
  /-- Between braces. -/
  | inline
deriving Repr, DecidableEq, Inhabited

/-- A TOML value. -/
inductive Toml where
  | string (s : String)
  | integer (n : Int)
  | float (x : Float)
  | boolean (b : Bool)
  /-- A date or a time; its parts are not kept. -/
  | date
  | array (items : List Toml)
  | table (origin : Toml.Origin) (entries : List (String × Toml))
  /-- The rows of an array of tables: those before the last one, and the last one. -/
  | tables (earlier : List (List (String × Toml))) (last : List (String × Toml))
deriving Repr, Inhabited

namespace Toml

/-! ## Dotted keys -/

/-- Puts a value under a dotted key. Tables on the way are made where they are missing. The value
    goes into a table that dotted keys made; what is there already is not replaced. -/
def place (value : Toml) : List String → Table Toml → Option (Table Toml)
  | [], _ => none
  | [key], entries =>
    if Table.has key entries then none else some (Table.insert key value entries)
  | key :: next :: path, entries =>
    match Table.find? key entries with
    | none =>
      (place value (next :: path) []).map fun inner =>
        Table.insert key (.table .dotted inner) entries
    | some (.table .dotted inner) =>
      (place value (next :: path) inner).map
        (fun inner => Table.insert key (.table .dotted inner) entries)
    | some (.table .implicit inner) =>
      if path.isEmpty then none
      else
        (place value (next :: path) inner).map
          (fun inner => Table.insert key (.table .implicit inner) entries)
    | some (.tables earlier last) =>
      if path.isEmpty then none
      else
        (place value (next :: path) last).map
          (fun last => Table.insert key (.tables earlier last) entries)
    | some _ => none

/-- Puts values under dotted keys, one after the other. -/
def placeAll (pairs : List (List String × Toml)) (entries : Table Toml) : Option (Table Toml) :=
  pairs.foldlM (fun t (key, value) => place value key t) entries

/-! ## Headers -/

/-- Changes the table that the path of a header leads to. Tables on the way are made where they are
    missing; of an array of tables the last row counts. -/
def within (change : Table Toml → Option (Table Toml)) :
    List String → Table Toml → Option (Table Toml)
  | [], entries => change entries
  | key :: path, entries =>
    match Table.find? key entries with
    | none =>
      (within change path []).map (fun inner => Table.insert key (.table .implicit inner) entries)
    | some (.table .inline _) => none
    | some (.table origin inner) =>
      (within change path inner).map (fun inner => Table.insert key (.table origin inner) entries)
    | some (.tables earlier last) =>
      (within change path last).map (fun last => Table.insert key (.tables earlier last) entries)
    | some _ => none

/-- Opens a table and puts values into it. The table is new, or it came about as a part of a
    path. -/
def openTable (key : String) (pairs : List (List String × Toml)) (entries : Table Toml) :
    Option (Table Toml) :=
  let filled (inner : Table Toml) : Option (Table Toml) :=
    (placeAll pairs inner).map (fun inner => Table.insert key (.table .header inner) entries)
  match Table.find? key entries with
  | none => filled []
  | some (.table .implicit inner) => filled inner
  | some _ => none

/-- Adds a row to an array of tables, which is made if it is missing. -/
def openRow (key : String) (pairs : List (List String × Toml)) (entries : Table Toml) :
    Option (Table Toml) :=
  let filled (earlier : List (Table Toml)) : Option (Table Toml) :=
    (placeAll pairs []).map (fun row => Table.insert key (.tables earlier row) entries)
  match Table.find? key entries with
  | none => filled []
  | some (.tables earlier last) => filled (earlier ++ [last])
  | some _ => none

end Toml

end Theming
