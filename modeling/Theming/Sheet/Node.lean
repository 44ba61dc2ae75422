import Theming.Table

set_option autoImplicit false

/-! # Trees of templates

A template is an ordered tree. The root holds rules, condition blocks, declarations and comments; a
rule holds its selectors before the rest. Each node has a kind and named texts. -/

namespace Theming.Sheet

/-! ## Kinds and property names -/

/-- What a node is. -/
inductive Kind where
  | root
  /-- A block with selectors. -/
  | rule
  | selector
  | declaration
  /-- A block after an at-word, such as a media query. -/
  | condition
  | comment
deriving Repr, DecidableEq, Inhabited

/-- Every kind, in order. -/
def Kind.all : List Kind := [.root, .rule, .selector, .declaration, .condition, .comment]

/-- The name of a kind. -/
def Kind.name : Kind → String
  | .root => "root"
  | .rule => "rule"
  | .selector => "selector"
  | .declaration => "declaration"
  | .condition => "condition_block"
  | .comment => "comment"

/-- The kind of a name. -/
def Kind.ofName? (name : String) : Option Kind := Kind.all.find? (fun kind => kind.name = name)

/-- The text of a selector or a comment. -/
def textKey : String := "text"

/-- The property that a declaration sets. -/
def propertyKey : String := "property"

/-- The value that a declaration gives. -/
def valueKey : String := "value"

/-- The at-word of a condition block, without the at sign. -/
def nameKey : String := "name"

/-- What stands between the at-word of a condition block and its brace. -/
def preludeKey : String := "prelude"

/-! ## Nodes -/

/-- A node with everything below it. -/
inductive Node where
  | mk (kind : Kind) (properties : List (String × String)) (children : List Node)
deriving Repr, Inhabited

namespace Node

/-- The kind of a node. -/
def kind : Node → Kind
  | .mk kind _ _ => kind

/-- The named texts of a node. -/
def properties : Node → Table String
  | .mk _ properties _ => properties

/-- The children of a node, in order. -/
def children : Node → List Node
  | .mk _ _ children => children

/-- The node with other children. -/
def withChildren : Node → List Node → Node
  | .mk kind properties _, children => .mk kind properties children

@[simp] theorem kind_mk (k : Kind) (p : Table String) (c : List Node) : (mk k p c).kind = k := rfl

@[simp] theorem properties_mk (k : Kind) (p : Table String) (c : List Node) :
    (mk k p c).properties = p := rfl

@[simp] theorem children_mk (k : Kind) (p : Table String) (c : List Node) :
    (mk k p c).children = c := rfl

/-- A named text of a node; empty if it has none of that name. -/
def prop (n : Node) (key : String) : String := (Table.find? key n.properties).getD ""

/-- A root above some nodes. -/
def root (children : List Node) : Node := .mk .root [] children

/-- A rule with selectors and a body. -/
def rule (children : List Node) : Node := .mk .rule [] children

/-- A selector. -/
def selector (text : String) : Node := .mk .selector [(textKey, text)] []

/-- A declaration. -/
def declaration (property value : String) : Node :=
  .mk .declaration [(propertyKey, property), (valueKey, value)] []

/-- A condition block. -/
def condition (name prelude : String) (children : List Node) : Node :=
  .mk .condition [(nameKey, name), (preludeKey, prelude)] children

/-- A comment. -/
def comment (text : String) : Node := .mk .comment [(textKey, text)] []

/-! ## Equality -/

mutual

/-- Decides whether two nodes are equal. -/
def decEq : (a b : Node) → Decidable (a = b)
  | .mk k p c, .mk k' p' c' =>
    if hk : k = k' then
      if hp : p = p' then
        match decEqAll c c' with
        | isTrue hc => isTrue (by rw [hk, hp, hc])
        | isFalse hc => isFalse (by simp [hc])
      else isFalse (by simp [hp])
    else isFalse (by simp [hk])
termination_by structural a => a

/-- Decides whether two lists of nodes are equal. -/
def decEqAll : (a b : List Node) → Decidable (a = b)
  | [], [] => isTrue rfl
  | [], _ :: _ => isFalse (by simp)
  | _ :: _, [] => isFalse (by simp)
  | n :: rest, n' :: rest' =>
    match decEq n n' with
    | isTrue hn =>
      match decEqAll rest rest' with
      | isTrue hr => isTrue (by rw [hn, hr])
      | isFalse hr => isFalse (by simp [hr])
    | isFalse hn => isFalse (by simp [hn])
termination_by structural a => a

end

instance : DecidableEq Node := decEq

/-! ## Listings -/

mutual

/-- The nodes of a tree in document order: a node before its children, children in order. -/
def preorder : Node → List Node
  | .mk kind properties children => .mk kind properties children :: preorderAll children
termination_by structural n => n

/-- The nodes of several trees in document order. -/
def preorderAll : List Node → List Node
  | [] => []
  | n :: rest => n.preorder ++ preorderAll rest
termination_by structural nodes => nodes

end

mutual

/-- The number of nodes of a tree. -/
def size : Node → Nat
  | .mk _ _ children => sizeAll children + 1
termination_by structural n => n

/-- The number of nodes of several trees. -/
def sizeAll : List Node → Nat
  | [] => 0
  | n :: rest => n.size + sizeAll rest
termination_by structural nodes => nodes

end

mutual

/-- The nodes of a tree in document order, each with how deep it stands. -/
def rows (depth : Nat) : Node → List (Nat × Node)
  | .mk kind properties children =>
    (depth, .mk kind properties children) :: rowsAll (depth + 1) children
termination_by structural n => n

/-- The nodes of several trees in document order, each with how deep it stands. -/
def rowsAll (depth : Nat) : List Node → List (Nat × Node)
  | [] => []
  | n :: rest => n.rows depth ++ rowsAll depth rest
termination_by structural nodes => nodes

end

/-- The nodes of a kind, in document order. -/
def ofKind (n : Node) (kind : Kind) : List Node := n.preorder.filter (fun m => m.kind = kind)

/-- The children of a kind, in order. -/
def childrenOfKind (n : Node) (kind : Kind) : List Node :=
  n.children.filter (fun m => m.kind = kind)

/-- How many nodes there are of each kind that occurs, in the order of the kinds. -/
def countByKind (n : Node) : List (Kind × Nat) :=
  (Kind.all.map (fun kind => (kind, (n.ofKind kind).length))).filter (fun (_, count) => count ≠ 0)

/-- The texts of the selectors among some nodes. -/
def selectorTexts (nodes : List Node) : List String :=
  (nodes.filter (fun m => m.kind = .selector)).map (·.prop textKey)

/-- The properties and values of the declarations among some nodes. -/
def declarationPairs (nodes : List Node) : List (String × String) :=
  (nodes.filter (fun m => m.kind = .declaration)).map
    (fun m => (m.prop propertyKey, m.prop valueKey))

/-- The kinds, properties and numbers of children in document order. -/
def signature (n : Node) : List (Kind × Table String × Nat) :=
  n.preorder.map (fun m => (m.kind, m.properties, m.children.length))

/-! ## Shape -/

/-- What can be wrong with the structure of a tree. -/
inductive Defect where
  | badRoot
  | unreachable (count : Nat)
  | linkMismatch
  | nestedRoot
deriving Repr, DecidableEq

/-- What a defect is called. -/
def Defect.message : Defect → String
  | .badRoot => "root node is missing or not of kind root"
  | .unreachable count => toString count ++ " node(s) are not reachable from the root"
  | .linkMismatch => "child/parent links disagree"
  | .nestedRoot => "a root node appears below the top of the tree"

/-- What is wrong with a tree, if anything: the top is no root, or a root lies below it. -/
def defect? (n : Node) : Option Defect :=
  if n.kind ≠ .root then some .badRoot
  else if (preorderAll n.children).any (fun m => m.kind = .root) then some .nestedRoot
  else none

end Node

end Theming.Sheet
