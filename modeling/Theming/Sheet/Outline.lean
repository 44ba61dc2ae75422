import Theming.Sheet.Token

set_option autoImplicit false

/-! # Outlines

The outline of a template is its structure of statements and blocks, before any of them is read: a
brace opens a block whose head are the tokens since the last statement, a closing brace ends it, and
semicolons outside parentheses separate statements. The tokens are taken one at a time; the state
between two tokens is a draft. -/

namespace Theming.Sheet

/-- A part of an outline. -/
inductive Chunk where
  /-- A comment between statements. -/
  | comment (token : Token)
  /-- A statement that is no block. -/
  | statement (tokens : List Token)
  /-- A block with the tokens before its brace; `closed` tells whether its closing brace is
      there. -/
  | block (head : List Token) (brace : Token) (body : List Chunk) (closed : Bool)
  /-- A closing brace that matches none. -/
  | stray (token : Token)
deriving Repr, Inhabited

/-- A block that is still open, with the chunks before it, last one first. -/
structure Frame where
  head : List Token
  brace : Token
  before : List Chunk
deriving Repr

/-- An outline in the making: the open blocks, innermost first; the chunks of the innermost one,
    last one first; the tokens of the statement at hand, last one first; and how many parentheses
    are open in it. -/
structure Draft where
  frames : List Frame
  chunks : List Chunk
  pending : List Token
  depth : Nat
deriving Repr, Inhabited

namespace Draft

/-- The draft before the first token. -/
def empty : Draft := ⟨[], [], [], 0⟩

/-- Adds a chunk to the innermost open block. -/
def add (d : Draft) (chunk : Chunk) : Draft := { d with chunks := chunk :: d.chunks }

/-- Adds a token to the statement at hand. -/
def push (d : Draft) (t : Token) : Draft :=
  { d with pending := t :: d.pending, depth := Token.depthAfter d.depth t }

/-- Ends the statement at hand, if there is one. -/
def flush (d : Draft) : Draft :=
  match d.pending with
  | [] => d
  | pending => ⟨d.frames, .statement pending.reverse :: d.chunks, [], 0⟩

/-- Opens a block. -/
def openBlock (d : Draft) (brace : Token) : Draft :=
  ⟨⟨d.pending.reverse, brace, d.chunks⟩ :: d.frames, [], [], 0⟩

/-- Ends the innermost open block; a brace that has none to close is kept as such. -/
def closeBlock (d : Draft) (brace : Token) : Draft :=
  match d.frames with
  | [] => d.add (.stray brace)
  | f :: frames => ⟨frames, .block f.head f.brace d.chunks.reverse true :: f.before, [], 0⟩

/-- Takes one token. -/
def step (d : Draft) (t : Token) : Draft :=
  match t.kind with
  | .braceOpen => d.openBlock t
  | .braceClose => d.flush.closeBlock t
  | .semicolon => if d.depth = 0 then d.flush else d.push t
  | .comment => if d.pending.isEmpty then d.add (.comment t) else d.push t
  | _ => d.push t

/-- Ends the open blocks that were never closed, innermost first. -/
def closeAll : List Frame → List Chunk → List Chunk
  | [], chunks => chunks.reverse
  | f :: frames, chunks =>
    closeAll frames (.block f.head f.brace chunks.reverse false :: f.before)

/-- The outline of a draft when no token is left. -/
def finish (d : Draft) : List Chunk :=
  let d := d.flush
  closeAll d.frames d.chunks

end Draft

/-- The outline of a list of tokens. -/
def outline (tokens : List Token) : List Chunk := (tokens.foldl Draft.step Draft.empty).finish

end Theming.Sheet
