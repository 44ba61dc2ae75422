import Theming.Sheet.Node

set_option autoImplicit false

/-! # Trees that are edited in place

An arena keeps the nodes of a tree under numbers, with links from each node to its parent and its
children. The root has number 0 and is always there. A number is never given twice: that of a node
that was removed is stale, and operations on it change nothing. -/

namespace Theming.Sheet

/-- A node in an arena, with its links. -/
structure Slot where
  kind : Kind
  properties : Table String
  parent : Option Nat
  children : List Nat
deriving Repr, DecidableEq, Inhabited

/-- A named text of a node; empty if it has none of that name. -/
def Slot.prop (slot : Slot) (key : String) : String :=
  (Table.find? key slot.properties).getD ""

/-- Nodes by number; `none` stands for a node that was removed. -/
structure Arena where
  slots : List (Option Slot)
deriving Repr, DecidableEq, Inhabited

namespace Arena

/-! ## Access -/

/-- The number of the root. -/
def rootId : Nat := 0

/-- An arena with a root of the given kind and properties, and nothing else. -/
def single (kind : Kind) (properties : Table String) : Arena :=
  ⟨[some ⟨kind, properties, none, []⟩]⟩

/-- An arena with nothing but a root. -/
def empty : Arena := single .root []

/-- The node of a number, if it is live. -/
def get? (a : Arena) (id : Nat) : Option Slot := (a.slots[id]?).join

/-- Whether a number belongs to a live node. -/
def contains (a : Arena) (id : Nat) : Bool := (a.get? id).isSome

/-- The kind of a node. -/
def kind? (a : Arena) (id : Nat) : Option Kind := (a.get? id).map (·.kind)

/-- The parent of a node; the root has none. -/
def parent? (a : Arena) (id : Nat) : Option Nat := (a.get? id).bind (·.parent)

/-- The children of a node; none for a stale number. -/
def childrenOf (a : Arena) (id : Nat) : List Nat := ((a.get? id).map (·.children)).getD []

/-- The number of live nodes, the root included. -/
def size (a : Arena) : Nat := a.slots.countP Option.isSome

/-- Whether the root has no children. -/
def isEmpty (a : Arena) : Bool := (a.childrenOf rootId).isEmpty

/-- Changes a node; nothing happens to a stale number. -/
def modify (a : Arena) (id : Nat) (f : Slot → Slot) : Arena :=
  ⟨a.slots.modify id (Option.map f)⟩

/-! ## Edits -/

/-- Adds a node behind the children of another one, or of the root if that one is stale. The result
    holds the number of the new node. -/
def insert (a : Arena) (parent : Nat) (kind : Kind) (properties : Table String) : Arena × Nat :=
  let parent := if a.contains parent then parent else rootId
  let id := a.slots.length
  let grown : Arena := ⟨a.slots ++ [some ⟨kind, properties, some parent, []⟩]⟩
  (grown.modify parent (fun slot => { slot with children := slot.children ++ [id] }), id)

/-- Takes a node out of the children of its parent. -/
def detach (a : Arena) (id : Nat) : Arena :=
  match a.parent? id with
  | none => a
  | some parent =>
    a.modify parent (fun slot => { slot with children := slot.children.filter (· != id) })

/-- Walks depth first through what the stack holds, and lists at most `room` nodes. Stale numbers
    are passed over. -/
def walkFrom (a : Arena) : (room : Nat) → (stack : List Nat) → List Nat
  | _, [] => []
  | 0, _ :: _ => []
  | room + 1, id :: stack =>
    if a.contains id then id :: walkFrom a room (a.childrenOf id ++ stack)
    else walkFrom a (room + 1) stack
termination_by room stack => (room, stack)

/-- A node and everything below it in document order. -/
def walk (a : Arena) (id : Nat) : List Nat := a.walkFrom (a.size + 1) [id]

/-- The nodes above a node, nearest first, at most `room` of them. -/
def ancestorsFrom (a : Arena) : (room : Nat) → Nat → List Nat
  | 0, _ => []
  | room + 1, id =>
    match a.parent? id with
    | none => []
    | some parent => parent :: ancestorsFrom a room parent

/-- The nodes above a node, nearest first. -/
def ancestors (a : Arena) (id : Nat) : List Nat := a.ancestorsFrom (a.size + 1) id

/-- Removes a node with everything below it. There is no result for the root and for a stale
    number. -/
def remove (a : Arena) (id : Nat) : Option (Slot × Arena) :=
  if id = rootId then none
  else
    (a.get? id).map (fun slot =>
      let gone := a.walk id
      (slot, ⟨(a.detach id).slots.mapIdx (fun i s => if gone.contains i then none else s)⟩))

/-- Moves a node, with what is below it, behind the children of another one. Refused if one of the
    numbers is stale, for the root, and if the new parent is the node itself or below it. -/
def reparent (a : Arena) (id target : Nat) : Option Arena :=
  if id = rootId ∨ !a.contains id ∨ !a.contains target ∨ id = target ∨
      (a.ancestors target).contains id then none
  else
    some (((a.detach id).modify id (fun slot => { slot with parent := some target })).modify target
      (fun slot => { slot with children := slot.children ++ [id] }))

/-- Reorders the children of a node. Refused unless the new order is made of the same children. -/
def reorder (a : Arena) (id : Nat) (order : List Nat) : Option Arena :=
  match a.get? id with
  | none => none
  | some slot =>
    if slot.children.length = order.length ∧ order.all slot.children.contains ∧
        slot.children.all order.contains then
      some (a.modify id (fun slot => { slot with children := order }))
    else none

/-- Sets a property of a node. -/
def setProperty (a : Arena) (id : Nat) (key value : String) : Arena :=
  a.modify id (fun slot => { slot with properties := Table.insert key value slot.properties })

/-- Sets the kind of a node. -/
def setKind (a : Arena) (id : Nat) (kind : Kind) : Arena :=
  a.modify id (fun slot => { slot with kind := kind })

/-! ## Queries -/

/-- The nodes from a node downwards that satisfy a test, in document order. -/
def select (a : Arena) (start : Nat) (p : Slot → Bool) : List Nat :=
  (a.walk start).filter (fun id => ((a.get? id).map p).getD false)

/-- The nodes of a kind from a node downwards, in document order. -/
def ofKind (a : Arena) (start : Nat) (kind : Kind) : List Nat :=
  a.select start (fun slot => slot.kind = kind)

/-- The children of a kind, in order. -/
def childrenOfKind (a : Arena) (id : Nat) (kind : Kind) : List Nat :=
  (a.childrenOf id).filter (fun child => a.kind? child = some kind)

/-- The texts of the selectors of a node, in order. -/
def selectorTexts (a : Arena) (id : Nat) : List String :=
  (a.childrenOfKind id .selector).filterMap (fun child =>
    (a.get? child).map (fun slot => slot.prop textKey))

/-- The properties and values of the declarations of a node, in order. -/
def declarationPairs (a : Arena) (id : Nat) : List (String × String) :=
  (a.childrenOfKind id .declaration).filterMap (fun child =>
    (a.get? child).map (fun slot => (slot.prop propertyKey, slot.prop valueKey)))

/-- How many nodes there are of each kind that occurs, in the order of the kinds. -/
def countByKind (a : Arena) : List (Kind × Nat) :=
  (Kind.all.map (fun kind => (kind, (a.ofKind rootId kind).length))).filter
    (fun (_, count) => count ≠ 0)

/-- The kinds, properties and numbers of children in document order. -/
def signature (a : Arena) : List (Kind × Table String × Nat) :=
  (a.walk rootId).filterMap (fun id =>
    (a.get? id).map (fun slot => (slot.kind, slot.properties, slot.children.length)))

/-! ## Checks -/

/-- What is wrong with the link from a node to one of its children, if anything. -/
def linkDefect? (a : Arena) (id child : Nat) : Option Node.Defect :=
  if a.parent? child ≠ some id ∨ !a.contains child then some .linkMismatch
  else if a.kind? child = some .root then some .nestedRoot
  else none

/-- Follows the links from the nodes on the stack. `unseen` are the live nodes that were not reached
    yet: each of them must be reached once. -/
def checkLinks (a : Arena) (unseen : List Nat) : List Nat → Option Node.Defect
  | [] => if unseen.isEmpty then none else some (.unreachable unseen.length)
  | id :: stack =>
    if _h : id ∈ unseen then
      match (a.childrenOf id).findSome? (a.linkDefect? id) with
      | some defect => some defect
      | none => checkLinks a (unseen.erase id) ((a.childrenOf id).reverse ++ stack)
    else some .linkMismatch
termination_by unseen.length
decreasing_by
  have := List.length_erase_of_mem ‹id ∈ unseen›
  have := List.length_pos_of_mem ‹id ∈ unseen›
  omega

/-- What is wrong with the structure, if anything. -/
def defect? (a : Arena) : Option Node.Defect :=
  if a.kind? rootId ≠ some .root ∨ (a.parent? rootId).isSome then some .badRoot
  else
    a.checkLinks ((List.range a.slots.length).filter (fun id => a.contains id)) [rootId]

/-! ## Trees -/

mutual

/-- Adds a tree below a node. -/
def graft (a : Arena) (parent : Nat) : Node → Arena
  | .mk kind properties children =>
    let (grown, id) := a.insert parent kind properties
    graftAll grown id children
termination_by structural n => n

/-- Adds several trees below a node. -/
def graftAll (a : Arena) (parent : Nat) : List Node → Arena
  | [] => a
  | n :: rest => graftAll (graft a parent n) parent rest
termination_by structural nodes => nodes

end

/-- The arena of a tree, with its nodes numbered in document order. -/
def ofTree (tree : Node) : Arena :=
  graftAll (single tree.kind tree.properties) rootId tree.children

/-- The tree below a node, followed `depth` links down. -/
def subtree (a : Arena) : (depth : Nat) → Nat → Node
  | 0, _ => default
  | depth + 1, id =>
    match a.get? id with
    | none => default
    | some slot => .mk slot.kind slot.properties (slot.children.map (subtree a depth))

/-- The tree of an arena. -/
def toTree (a : Arena) : Node := a.subtree a.slots.length rootId

end Arena

end Theming.Sheet
