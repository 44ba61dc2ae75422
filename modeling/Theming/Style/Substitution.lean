import Theming.Sheet.Node
import Theming.Token.Evaluation

set_option autoImplicit false

/-! # Putting token values into a tree

References and calls in the values of declarations and in the preludes of condition blocks are
evaluated. Declarations `$name: value;` at the top define local names: they are evaluated one after
the other and taken out of the tree. A reference is looked up in the context first, then among the
local names, then in the tokens. -/

namespace Theming.Style

open Sheet (Node Kind)

/-! ## Local names -/

/-- Whether a node defines a local name. -/
def isLocal (n : Node) : Bool :=
  n.kind = .declaration && Text.headIs '$' (n.prop Sheet.propertyKey)

/-- The name that a property defines: what follows its dollar signs. -/
def localName (property : String) : String :=
  String.ofList (property.toList.dropWhile (· = '$'))

/-- Where references are looked up. -/
def scope (context locals tokens : TokenSet) : Scope := Scope.layered [context, locals, tokens]

/-- Adds a definition to the local names. -/
def define (context tokens : TokenSet) (functions : Functions) (locals : TokenSet) (n : Node) :
    TokenSet :=
  let outcome := evaluate (n.prop Sheet.valueKey) (scope context locals tokens) functions .all
  Table.insert (localName (n.prop Sheet.propertyKey)) outcome.value locals

/-- The local names that a tree defines at its top. -/
def localsOf (context tokens : TokenSet) (functions : Functions) (tree : Node) : TokenSet :=
  (tree.children.filter isLocal).foldl (define context tokens functions) []

/-- The tree without the definitions at its top. -/
def withoutLocals (tree : Node) : Node :=
  tree.withChildren (tree.children.filter (fun n => !isLocal n))

/-! ## Evaluating texts -/

/-- The key of the text of a node that is evaluated. -/
def evaluatedKey? : Kind → Option String
  | .declaration => some Sheet.valueKey
  | .condition => some Sheet.preludeKey
  | _ => none

/-- The text of a node that is evaluated. -/
def evaluatedText? (n : Node) : Option String := (evaluatedKey? n.kind).map n.prop

/-- Whether a text may hold something to evaluate. -/
def mayChange (text : String) : Bool := Segment.mayRefer text || text.toList.contains '('

/-- What a text comes to; nothing for one without anything to evaluate. -/
def outcome? (scope : Scope) (functions : Functions) (text : String) : Option Outcome :=
  if mayChange text then some (evaluate text scope functions .all) else none

/-- The named texts of a node with the evaluated one in place. -/
def evaluateProperties (scope : Scope) (functions : Functions) (kind : Kind)
    (properties : Table String) : Table String :=
  match evaluatedKey? kind with
  | none => properties
  | some key =>
    match outcome? scope functions ((Table.find? key properties).getD "") with
    | none => properties
    | some outcome => Table.insert key outcome.value.display properties

mutual

/-- The tree with every text evaluated. -/
def evaluateTree (scope : Scope) (functions : Functions) : Node → Node
  | .mk kind properties children =>
    .mk kind (evaluateProperties scope functions kind properties)
      (evaluateTrees scope functions children)
termination_by structural n => n

/-- Several trees with every text evaluated. -/
def evaluateTrees (scope : Scope) (functions : Functions) : List Node → List Node
  | [] => []
  | n :: rest => evaluateTree scope functions n :: evaluateTrees scope functions rest
termination_by structural nodes => nodes

end

/-- Whether a node holds a reference that is not found. -/
def isUnresolved (scope : Scope) (functions : Functions) (n : Node) : Bool :=
  match (evaluatedText? n).bind (outcome? scope functions) with
  | some outcome => outcome.unresolved
  | none => false

/-! ## Substitution -/

/-- Puts values into a tree. The result holds the number of nodes with a reference that was not
    found. -/
def substitute (context tokens : TokenSet) (functions : Functions) (tree : Node) : Node × Nat :=
  let scope := scope context (localsOf context tokens functions tree) tokens
  let rest := withoutLocals tree
  (evaluateTree scope functions rest,
    (rest.preorder.filter (isUnresolved scope functions)).length)

/-! ## What a template reads -/

/-- The name that a node defines, if it does, wherever it stands. -/
def definedName? (n : Node) : Option String :=
  if n.kind = .declaration then
    (Text.dropPrefix? ['$'] (n.prop Sheet.propertyKey).toList).map String.ofList
  else none

/-- The names that the texts of a tree refer to, except those that the tree defines; in order, each
    once. -/
def usedNames (functions : Functions) (tree : Node) : List String :=
  let nodes := tree.preorder
  let defined := nodes.filterMap definedName?
  let used := (nodes.filterMap evaluatedText?).flatMap (Segment.referencedNames functions.contains)
  Table.names (Table.ofPairs ((used.filter (fun name => !defined.contains name)).map (·, ())))

end Theming.Style
