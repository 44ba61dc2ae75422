import Theming.Sheet.Arena
import Theming.Text.Blank
import Theming.Text.Search

set_option autoImplicit false

/-! # Optimizing trees

Three levels, each with the passes of those before it. The basic level drops what says nothing; the
advanced level keeps the last of several declarations of one property; the aggressive level also
merges rules. Every pass rebuilds the lists of children from the inside out. -/

namespace Theming.Sheet

/-- How hard to optimize. -/
inductive Level where
  | basic
  | advanced
  | aggressive
deriving Repr, DecidableEq, Inhabited

namespace Level

/-- The name of a level. -/
def name : Level → String
  | .basic => "basic"
  | .advanced => "advanced"
  | .aggressive => "aggressive"

/-- The level of a name. -/
def ofName? (name : String) : Option Level :=
  [.basic, .advanced, .aggressive].find? (fun level => Level.name level = name)

/-- How many levels are below a level. -/
def rank : Level → Nat
  | .basic => 0
  | .advanced => 1
  | .aggressive => 2

instance : LE Level := ⟨fun low high => low.rank ≤ high.rank⟩

instance (low high : Level) : Decidable (low ≤ high) :=
  inferInstanceAs (Decidable (low.rank ≤ high.rank))

/-- Whether the passes of the advanced level are made. -/
def collapses : Level → Bool
  | .basic => false
  | _ => true

/-- Whether the passes of the aggressive level are made. -/
def merges : Level → Bool
  | .aggressive => true
  | _ => false

end Level

namespace Node

/-! ## Rebuilding -/

mutual

/-- Changes the list of children of every node, innermost lists first. -/
def rebuild (f : Kind → List Node → List Node) : Node → Node
  | .mk kind properties children => .mk kind properties (f kind (rebuildAll f children))
termination_by structural n => n

/-- Changes the lists of children below several nodes. -/
def rebuildAll (f : Kind → List Node → List Node) : List Node → List Node
  | [] => []
  | n :: rest => n.rebuild f :: rebuildAll f rest
termination_by structural nodes => nodes

end

/-! ## Dropping what says nothing -/

/-- Whether a declaration stands for an at-word with its prelude. -/
def isStatement (n : Node) : Bool := Text.headIs '@' (n.prop propertyKey)

/-- Whether a node sets a property: a declaration that is no statement. -/
def setsProperty (n : Node) : Bool := n.kind = .declaration && !n.isStatement

/-- Whether a node sets a property to nothing. -/
def setsNothing (n : Node) : Bool := n.setsProperty && Text.allBlank (n.prop valueKey)

/-- Drops every declaration of an empty value. -/
def dropEmptyDeclarations (n : Node) : Node :=
  n.rebuild (fun _ children => children.filter (fun m => !m.setsNothing))

/-- Whether a node is a block. -/
def isBlock (n : Node) : Bool := n.kind = .rule || n.kind = .condition

/-- Whether a block has something to write: a declaration or another block. -/
def hasContent (n : Node) : Bool :=
  n.children.any (fun m => m.kind = .declaration || m.isBlock)

/-- Drops every block without content, innermost first. -/
def dropEmptyBlocks (n : Node) : Node :=
  n.rebuild (fun _ children => children.filter (fun m => !m.isBlock || m.hasContent))

/-! ## Repeated declarations -/

/-- Whether two nodes set the same property. -/
def setsSame (n m : Node) : Bool :=
  n.setsProperty && m.setsProperty && n.prop propertyKey == m.prop propertyKey

/-- Drops the declarations whose property is set again further on. -/
def keepLast : List Node → List Node
  | [] => []
  | n :: rest => if rest.any n.setsSame then keepLast rest else n :: keepLast rest

/-- Keeps the last declaration of each property in every rule. -/
def keepLastDeclarations (n : Node) : Node :=
  n.rebuild (fun kind children => if kind = .rule then keepLast children else children)

/-! ## Merging rules -/

/-- Whether a node is a rule without blocks in it. -/
def isFlatRule (n : Node) : Bool := n.kind = .rule && !n.children.any isBlock

/-- Changes the first node that satisfies a test, if there is one. -/
def updateFirst (p : Node → Bool) (f : Node → Node) : List Node → Option (List Node)
  | [] => none
  | n :: rest => if p n then some (f n :: rest) else (updateFirst p f rest).map (n :: ·)

/-- Takes flat rules into an earlier flat rule that is alike, one after the other. -/
def foldRules (alike : Node → Node → Bool) (absorb : Node → Node → Node) (nodes : List Node) :
    List Node :=
  nodes.foldl
    (fun kept n =>
      if n.isFlatRule then
        (updateFirst (fun first => first.isFlatRule && alike first n) (fun first => absorb first n)
          kept).getD (kept ++ [n])
      else kept ++ [n])
    []

/-- Whether the children of a node are merged: those of the root and of condition blocks are. -/
def mergesIn (kind : Kind) : Bool := kind = .root || kind = .condition

/-- Whether two rules have the same list of selectors. -/
def sameSelectors (first n : Node) : Bool :=
  selectorTexts first.children == selectorTexts n.children

/-- The first rule with the body of another one behind its own. -/
def absorbBody (first n : Node) : Node :=
  first.withChildren (first.children ++ n.children.filter (fun m => m.kind ≠ .selector))

/-- Gathers the bodies of rules with the same selectors in the first of them. -/
def coalesce (n : Node) : Node :=
  n.rebuild (fun kind children =>
    if mergesIn kind then foldRules sameSelectors absorbBody children else children)

/-- Whether two rules declare the same pairs of property and value, and at least one. -/
def sameDeclarations (first n : Node) : Bool :=
  let a := declarationPairs first.children
  let b := declarationPairs n.children
  !b.isEmpty && a.all b.contains && b.all a.contains

/-- The first rule with the selectors of another one that it does not have yet; all selectors stand
    before the body. -/
def absorbSelectors (first n : Node) : Node :=
  let known := selectorTexts first.children
  let new := (selectorTexts n.children).filter (fun text => !known.contains text)
  first.withChildren
    (first.children.filter (fun m => m.kind = .selector) ++ new.map selector ++
      first.children.filter (fun m => m.kind ≠ .selector))

/-- Gathers the selectors of rules with the same declarations in the first of them. -/
def mergeBodies (n : Node) : Node :=
  n.rebuild (fun kind children =>
    if mergesIn kind then foldRules sameDeclarations absorbSelectors children else children)

/-- Drops the selectors that occurred before. -/
def keepFirst (seen : List String) : List Node → List Node
  | [] => []
  | n :: rest =>
    if n.kind = .selector then
      let text := n.prop textKey
      if seen.contains text then keepFirst seen rest else n :: keepFirst (text :: seen) rest
    else n :: keepFirst seen rest

/-- Keeps the first of equal selectors in every rule. -/
def keepFirstSelectors (n : Node) : Node :=
  n.rebuild (fun kind children => if kind = .rule then keepFirst [] children else children)

/-! ## Levels -/

/-- The passes of the basic level. -/
def tidy (n : Node) : Node := n.dropEmptyDeclarations.dropEmptyBlocks

/-- The passes that the aggressive level adds. -/
def mergeRules (n : Node) : Node :=
  n.coalesce.keepLastDeclarations.mergeBodies.keepFirstSelectors

/-- The passes of a level. -/
def reduce (level : Level) (n : Node) : Node :=
  match level with
  | .basic => n.tidy
  | .advanced => n.tidy.keepLastDeclarations
  | .aggressive => n.tidy.keepLastDeclarations.mergeRules

end Node

/-! ## Optimizing with figures -/

/-- What an optimization did. -/
structure Savings where
  before : Nat
  after : Nat
  removed : Nat
  /-- An estimate in bytes. -/
  memory : Nat
  level : Level
deriving Repr, DecidableEq, Inhabited

/-- What a node is taken to cost, in bytes. -/
def nodeBytes : Nat := 128

/-- The figures of an optimization from one number of nodes to another. -/
def Savings.between (before after : Nat) (level : Level) : Savings :=
  ⟨before, after, before - after, (before - after) * nodeBytes, level⟩

/-- Optimizes a tree. A malformed one is left as it is. -/
def optimize (level : Level) (tree : Node) : Node × Savings :=
  match tree.defect? with
  | some _ => (tree, Savings.between tree.size tree.size level)
  | none =>
    let reduced := tree.reduce level
    (reduced, Savings.between tree.size reduced.size level)

/-- Optimizes the tree that is edited in an arena; its nodes get new numbers. An arena with a defect
    is left as it is. -/
def Arena.optimize (a : Arena) (level : Level) : Arena × Savings :=
  match a.defect? with
  | some _ => (a, Savings.between a.size a.size level)
  | none =>
    let (tree, savings) := Sheet.optimize level a.toTree
    (ofTree tree, savings)

end Theming.Sheet
