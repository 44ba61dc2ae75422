import Theming.Sheet.Node
import Theming.Text.Search

set_option autoImplicit false

/-! # Flat form of a tree

The items of a stylesheet: blocks with selectors, condition blocks, declarations, statements and
comments. Blocks do not nest: a rule inside a rule becomes a block of its own behind it, whose
selectors are combined with those around it, and a condition block inside a rule is moved out of it
with the selectors taken inside. -/

namespace Theming.Sheet

/-- A part of a flat stylesheet. -/
inductive Item where
  | comment (text : String)
  /-- An at-word with its prelude, ended by a semicolon. -/
  | statement (name prelude : String)
  | declaration (property value : String)
  | block (selectors : List String) (body : List Item)
  | condition (name prelude : String) (items : List Item)
deriving Repr, Inhabited

/-! ## Selectors -/

/-- A selector below another one: each `&` stands for the outer selector; a selector without `&` is
    a descendant of it. -/
def selectorBelow (outer inner : String) : String :=
  if inner.toList.contains '&' then
    String.ofList (Text.replaceChar '&' outer.toList inner.toList)
  else outer ++ " " ++ inner

/-- The selectors of a rule below the selectors around it, if there are any. -/
def resolveSelectors (scope : Option (List String)) (own : List String) : List String :=
  match scope with
  | none => own
  | some outer => outer.flatMap (fun o => own.map (selectorBelow o))

/-! ## Entries -/

/-- The item of a declaration or a comment. Comments can be left out. -/
def Node.ownItem? (dropComments : Bool) (n : Node) : Option Item :=
  match n.kind with
  | .comment => if dropComments then none else some (.comment (n.prop textKey))
  | .declaration =>
    let property := n.prop propertyKey
    some (if Text.headIs '@' property then .statement property (n.prop valueKey)
      else .declaration property (n.prop valueKey))
  | _ => none

/-- The entries among some nodes. -/
def entries (dropComments : Bool) (nodes : List Node) : List Item :=
  nodes.filterMap (Node.ownItem? dropComments)

/-- Whether an item is a comment. -/
def Item.isComment : Item → Bool
  | .comment _ => true
  | _ => false

/-- Whether a node is a declaration or a comment. -/
def Node.isEntry (n : Node) : Bool := n.kind = .declaration || n.kind = .comment

/-- The entries of a condition block inside a rule: declarations make one block of the rule's
    selectors; comments alone do not. -/
def looseItems (scope : Option (List String)) (body : List Item) : List Item :=
  match scope with
  | none => []
  | some selectors => if body.all Item.isComment then body else [.block selectors body]

/-- The block of a rule. A rule that holds only other blocks has none; one that holds nothing at all
    is kept as an empty block. -/
def ruleBlock (selectors : List String) (body : List Item) (leaf : Bool) : List Item :=
  if body.isEmpty && !leaf then [] else [.block selectors body]

/-! ## Flattening -/

mutual

/-- The items of a node under the selectors around it. Under selectors, entries are gathered by the
    block that they stand in and give nothing here. -/
def Node.items (dropComments : Bool) (scope : Option (List String)) : Node → List Item
  | .mk .rule _ children =>
    let selectors := resolveSelectors scope (Node.selectorTexts children)
    let nested := itemsOf dropComments (some selectors) children
    let leaf := !children.any Node.isEntry && nested.isEmpty
    ruleBlock selectors (entries dropComments children) leaf ++ nested
  | .mk .condition properties children =>
    let n := Node.mk .condition properties []
    [.condition (n.prop nameKey) (n.prop preludeKey)
      (looseItems scope (entries dropComments children) ++
        itemsOf dropComments scope children)]
  | .mk kind properties _ =>
    if scope.isNone then ((Node.mk kind properties []).ownItem? dropComments).toList else []
termination_by structural n => n

/-- The items of several nodes. -/
def itemsOf (dropComments : Bool) (scope : Option (List String)) : List Node → List Item
  | [] => []
  | n :: rest => n.items dropComments scope ++ itemsOf dropComments scope rest
termination_by structural nodes => nodes

end

theorem itemsOf_append (dropComments : Bool) (scope : Option (List String)) (a b : List Node) :
    itemsOf dropComments scope (a ++ b) =
      itemsOf dropComments scope a ++ itemsOf dropComments scope b := by
  induction a with
  | nil => rfl
  | cons n rest ih => rw [List.cons_append, itemsOf, itemsOf, ih, List.append_assoc]

/-- The flat form of a tree. -/
def flatten (dropComments : Bool) (tree : Node) : List Item :=
  itemsOf dropComments none tree.children

end Theming.Sheet
