import Theming.Text.Lowercase
import Theming.Text.Search
import Theming.Token.Value

set_option autoImplicit false

/-! # Token sets

A token set is a table of values; maps among them nest it. Entries are addressed by lists of keys
(`at?`, `setAt`) and by dotted paths (`get?`, `set`), looked up by the names that templates use
(`lookup?`), listed leaf by leaf (`leaves`, `paths`, `flatten`) and laid over one another
(`merge`). -/

namespace Theming

/-- A table of themeable values. -/
abbrev TokenSet := Table Value

/-! ## Addressing by keys -/

/-- The value reached from a value by following keys through maps. -/
def Value.at? : List String → Value → Option Value
  | [], v => some v
  | key :: keys, .map entries => (Table.find? key entries).bind (Value.at? keys)
  | _ :: _, _ => none

namespace TokenSet

/-- The value reached by following keys from the top. -/
def at? (keys : List String) (set : TokenSet) : Option Value :=
  match keys with
  | [] => none
  | key :: keys => (Table.find? key set).bind (Value.at? keys)

/-- The entries below a value; none if there is no map. -/
def below : Option Value → TokenSet
  | some (.map entries) => entries
  | _ => []

/-- Stores a value at the end of a chain of keys; what is in the way and no map becomes one. -/
def setAt : List String → Value → TokenSet → TokenSet
  | [], _, set => set
  | [key], v, set => Table.insert key v set
  | key :: keys, v, set => Table.insert key (.map (setAt keys v (below (Table.find? key set)))) set

/-! ## Dotted paths -/

/-- The keys of a dotted path. -/
def keysOf (path : String) : List String :=
  (Text.pieces (· == '.') path.toList).map String.ofList

/-- The value at a dotted path. A top-level entry with exactly that key comes first. -/
def get? (path : String) (set : TokenSet) : Option Value :=
  match Table.find? path set with
  | some v => some v
  | none => at? (keysOf path) set

/-- Whether there is a value at a dotted path. -/
def has (path : String) (set : TokenSet) : Bool := (get? path set).isSome

/-- Stores a value at a dotted path. -/
def set (path : String) (v : Value) (s : TokenSet) : TokenSet := setAt (keysOf path) v s

/-! ## Names in templates -/

/-- The paths that a name may stand for, in the order in which they are tried: the name itself, the
    name in the `variables` section, and its hyphens read as dots or as underscores. -/
def spellings (name : String) : List String :=
  [name, "variables." ++ name] ++
    if name.toList.contains '-' then [Text.swapChar '-' '.' name, Text.swapChar '-' '_' name]
    else []

/-- The value that a name refers to. -/
def lookup? (name : String) (set : TokenSet) : Option Value :=
  ((spellings name).findSome? (fun path => get? path set)).map Value.leaf

/-- The path at which a reference to the path's value ends: the `value` entry of a map that has
    one. -/
def leafPath (path : String) : Value → String
  | .map entries => if Table.has Value.leafKey entries then path ++ "." ++ Value.leafKey else path
  | _ => path

/-- The path that a reference by name reads. -/
def lookupPath? (name : String) (set : TokenSet) : Option String :=
  (spellings name).findSome? (fun path => (get? path set).map (leafPath path))

/-! ## Leaves -/

/-- A key below a path. -/
def join (path key : String) : String := if path = "" then key else path ++ "." ++ key

mutual

/-- The leaves of a value with their paths; a value that is no map is its own leaf. -/
def leavesOf (path : String) : Value → List (String × Value)
  | .map entries => leavesBelow path entries
  | v => [(path, v)]
termination_by structural v => v

/-- The leaves below a path, in the order of the keys. -/
def leavesBelow (path : String) : List (String × Value) → List (String × Value)
  | [] => []
  | (key, value) :: rest => leavesOf (join path key) value ++ leavesBelow path rest
termination_by structural entries => entries

end

/-- Every leaf with its path, in the order of the keys, level by level. -/
def leaves (set : TokenSet) : List (String × Value) := leavesBelow "" set

/-- The paths of the leaves. -/
def paths (set : TokenSet) : List String := (leaves set).map (·.1)

mutual

/-- A value with every leaf changed by a function of its path. -/
def mapLeavesOf (f : String → Value → Value) (path : String) : Value → Value
  | .map entries => .map (mapLeavesBelow f path entries)
  | v => f path v
termination_by structural v => v

/-- The entries below a path with every leaf changed. -/
def mapLeavesBelow (f : String → Value → Value) (path : String) :
    List (String × Value) → List (String × Value)
  | [] => []
  | (key, value) :: rest =>
    (key, mapLeavesOf f (join path key) value) :: mapLeavesBelow f path rest
termination_by structural entries => entries

end

/-- The set with every leaf changed by a function of its path. -/
def mapLeaves (f : String → Value → Value) (set : TokenSet) : TokenSet := mapLeavesBelow f "" set

/-- The table of leaf paths and the values that they address. -/
def flatten (set : TokenSet) : Table Value :=
  (paths set).foldl
    (fun table path =>
      match get? path set with
      | some v => Table.insert path v table
      | none => table)
    []

/-- The leaf paths that contain a text, letter case set aside. -/
def search (query : String) (set : TokenSet) : List String :=
  let needle := Text.lowercase query
  (paths set).filter (fun path => Text.contains needle (Text.lowercase path))

/-! ## Merging -/

mutual

/-- A value laid over what was there: a map is merged into a map, anything else replaces. -/
def mergeValue (base : Option Value) : Value → Value
  | .map above =>
    match base with
    | some (.map entries) => .map (mergeOnto entries above)
    | _ => .map above
  | v => v
termination_by structural v => v

/-- Entries laid over a base, one after the other. -/
def mergeOnto (base : TokenSet) : List (String × Value) → TokenSet
  | [] => base
  | (key, value) :: rest =>
    mergeOnto (Table.insert key (mergeValue (Table.find? key base) value) base) rest
termination_by structural above => above

end

/-- One set, `theme`, laid over another: its entries win, key by key and level by level. -/
def merge (base theme : TokenSet) : TokenSet := mergeOnto base theme

end TokenSet

end Theming
