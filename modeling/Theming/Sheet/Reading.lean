import Theming.Sheet.Comment
import Theming.Sheet.Node
import Theming.Sheet.Outline

set_option autoImplicit false

/-! # Reading templates

Every text is a template. A fragment that makes no sense is skipped or closed, and reported as a
fault beside the tree. Blocks nested too deeply are skipped whole. -/

namespace Theming.Sheet

/-! ## Faults -/

/-- The deepest nesting of blocks that is read. -/
def maxNesting : Nat := 256

/-- What is wrong with a fragment, with its byte offset. -/
inductive Fault where
  | unclosedBlock (position : Nat)
  | strayBrace (position : Nat)
  | missingColon (position : Nat) (text : String)
  | emptyProperty (position : Nat)
  | emptySelector (position : Nat)
  | unterminatedComment (position : Nat)
  | tooDeep (position : Nat)
deriving Repr, DecidableEq

/-- Where a fault is. -/
def Fault.position : Fault → Nat
  | .unclosedBlock p | .strayBrace p | .missingColon p _ | .emptyProperty p | .emptySelector p
  | .unterminatedComment p | .tooDeep p => p

/-- What a fault says. -/
def Fault.message : Fault → String
  | .unclosedBlock p => "unclosed block opened at byte " ++ toString p
  | .strayBrace p => "unexpected '\x7d' at byte " ++ toString p
  | .missingColon p text => "declaration without ':' at byte " ++ toString p ++ ": " ++ text
  | .emptyProperty p => "empty property name at byte " ++ toString p
  | .emptySelector p => "block without a selector at byte " ++ toString p
  | .unterminatedComment p => "unterminated comment at byte " ++ toString p
  | .tooDeep p =>
    "block at byte " ++ toString p ++ " nested deeper than " ++ toString maxNesting ++
      " levels; skipped"

/-! ## Reading chunks -/

/-- The nodes that were read, and the faults, in the order of the text. -/
structure Reading where
  nodes : List Node
  faults : List Fault
deriving Repr, DecidableEq, Inhabited

/-- Two readings one after the other. -/
def Reading.append (a b : Reading) : Reading := ⟨a.nodes ++ b.nodes, a.faults ++ b.faults⟩

/-- Whether a comment has its closing mark. -/
def isClosedComment (raw : List Char) : Bool :=
  Text.endsWith ['*', '/'] raw && 4 ≤ Text.byteLength raw

/-- Reads a comment. -/
def readComment (t : Token) : Reading :=
  ⟨[.comment (String.ofList (commentBody t.text))],
    if isClosedComment t.text then [] else [.unterminatedComment t.start]⟩

/-- Reads a declaration: what stands before the first colon outside parentheses is the property,
    what follows is the value. -/
def readDeclaration (position : Nat) (tokens : List Token) : Reading :=
  match Token.cutAt .colon 0 tokens with
  | (before, some after) =>
    let property := Token.join before
    if property = "" then ⟨[], [.emptyProperty position]⟩
    else ⟨[.declaration property (Token.join after)], []⟩
  | (_, none) =>
    let text := Token.join tokens
    if text = "" then ⟨[], []⟩ else ⟨[], [.missingColon position text]⟩

/-- Reads a statement: a declaration, or an at-word with its prelude, which is kept as a declaration
    of the at-word. -/
def readStatement : List Token → Reading
  | [] => ⟨[], []⟩
  | t :: rest =>
    if t.kind = .atKeyword then
      ⟨[.declaration (String.ofList t.text) (Token.join rest)], []⟩
    else readDeclaration t.start (t :: rest)

/-- The selectors in the head of a block; empty ones are passed over. -/
def selectorsOf (head : List Token) : List String :=
  ((Token.splitAt .comma 0 head).map Token.join).filter (fun s => s != "")

/-- Reads a block from its head and its body. -/
def readBlock (head : List Token) (brace : Token) (body : Reading) : Reading :=
  match head with
  | t :: rest =>
    if t.kind = .atKeyword then
      ⟨[.condition (String.ofList (t.text.drop 1)) (Token.join rest) body.nodes], body.faults⟩
    else
      match selectorsOf head with
      | [] => ⟨[], .emptySelector t.start :: body.faults⟩
      | selectors => ⟨[.rule (selectors.map Node.selector ++ body.nodes)], body.faults⟩
  | [] => ⟨[], .emptySelector brace.start :: body.faults⟩

/-- The fault of a block without its closing brace. -/
def closingFaults (brace : Token) (closed : Bool) : List Fault :=
  if closed then [] else [.unclosedBlock brace.start]

mutual

/-- Reads a chunk inside `depth` blocks. -/
def Chunk.read (depth : Nat) : Chunk → Reading
  | .comment t => readComment t
  | .statement tokens => readStatement tokens
  | .stray t => ⟨[], [.strayBrace t.start]⟩
  | .block head brace body closed =>
    if maxNesting ≤ depth then ⟨[], .tooDeep brace.start :: closingFaults brace closed⟩
    else
      (readBlock head brace (Chunk.readAll (depth + 1) body)).append
        ⟨[], closingFaults brace closed⟩
termination_by structural c => c

/-- Reads chunks one after the other. -/
def Chunk.readAll (depth : Nat) : List Chunk → Reading
  | [] => ⟨[], []⟩
  | chunk :: rest => (chunk.read depth).append (Chunk.readAll depth rest)
termination_by structural chunks => chunks

end

/-! ## Reading templates -/

/-- Reads a template: the nodes below its root, and every fault. -/
def read (template : String) : Reading := Chunk.readAll 0 (outline (Token.scan template))

/-- The tree of a template. -/
def parse (template : String) : Node := .root (read template).nodes

/-- The faults of a template. -/
def faults (template : String) : List Fault := (read template).faults

end Theming.Sheet
