import Theming.Token.Function
import Theming.Token.Segment
import Theming.Token.Set

set_option autoImplicit false

/-! # Evaluating expressions

References are looked up in a scope and calls are made with evaluated arguments. A text that is a
single reference or call yields that value with its type; any other text yields the joined texts of
its segments. What cannot be evaluated keeps its spelling. -/

namespace Theming

/-! ## Scopes and modes -/

/-- Where references are looked up. -/
abbrev Scope := String → Option Value

/-- Looks references up in a token set. -/
def TokenSet.scope (set : TokenSet) : Scope := fun name => set.lookup? name

/-- Looks references up in several token sets; the first that has one wins. -/
def Scope.layered (sets : List TokenSet) : Scope :=
  fun name => sets.findSome? (fun set => set.lookup? name)

/-- Which parts of an expression are evaluated. -/
inductive Mode where
  /-- References are replaced and calls keep their names. -/
  | references
  /-- Calls are made and references keep their spelling. -/
  | functions
  | all
deriving Repr, DecidableEq

/-- Whether references are replaced. -/
def Mode.replaces : Mode → Bool
  | .functions => false
  | _ => true

/-- Whether calls are made. -/
def Mode.calls : Mode → Bool
  | .references => false
  | _ => true

/-! ## Results -/

/-- The value of an expression, and whether a reference in it was not found. -/
structure Outcome where
  value : Value
  unresolved : Bool
deriving Repr, DecidableEq

/-- An evaluated segment: text of the expression itself, or the outcome of a reference or call. -/
inductive Piece where
  | text (t : String)
  | result (outcome : Outcome)
deriving Repr, DecidableEq

namespace Piece

/-- The outcome of a piece. -/
def outcome : Piece → Outcome
  | .text t => ⟨.str t, false⟩
  | .result outcome => outcome

/-- Trims the text that the pieces start with. -/
def trimFirst : List Piece → List Piece
  | .text t :: rest => .text (String.ofList (Text.trimStart t.toList)) :: rest
  | pieces => pieces

/-- Trims the text that the pieces end with. -/
def trimLast : List Piece → List Piece
  | [] => []
  | [.text t] => [.text (String.ofList (Text.trimEnd t.toList))]
  | p :: rest => p :: trimLast rest

/-- Whether a piece is more than an empty text. -/
def isFilled : Piece → Bool
  | .text t => t != ""
  | _ => true

/-- Trims the texts at both ends and drops empty texts. -/
def trim (pieces : List Piece) : List Piece := (trimLast (trimFirst pieces)).filter isFilled

/-- The outcome of a list of pieces: that of a single piece, or the joined texts. -/
def combine : List Piece → Outcome
  | [p] => p.outcome
  | pieces =>
    ⟨.str (String.join (pieces.map (fun p => p.outcome.value.display))),
      pieces.any (fun p => p.outcome.unresolved)⟩

theorem display_combine (pieces : List Piece) :
    (combine pieces).value.display =
      String.join (pieces.map (fun p => p.outcome.value.display)) := by
  cases pieces with
  | nil => rfl
  | cons p rest =>
    cases rest with
    | nil => rw [List.map_singleton, String.join_cons]; exact String.append_empty.symm
    | cons p' rest => rfl

end Piece

/-! ## Evaluation -/

/-- The argument that a value is passed as: a text is read as a literal. -/
def Value.argument : Value → Value
  | .str s => .ofLiteral s
  | v => v

/-- The text of a call that was not made: its spelling, unless evaluation changed an argument. -/
def callSpelling (name raw : String) (given : List String) (values : List Value) : String :=
  let rendered := values.map Value.display
  if rendered = given then raw else name ++ "(" ++ ", ".intercalate rendered ++ ")"

/-- The outcome of a call with evaluated arguments; `given` holds the arguments as spelled. It is
    made only when every reference in its arguments was found. -/
def callOutcome (functions : Functions) (mode : Mode) (name raw : String) (given : List String)
    (arguments : List Outcome) : Outcome :=
  let values := arguments.map (fun o => o.value.argument)
  let unresolved := arguments.any Outcome.unresolved
  let made := if mode.calls && !unresolved then functions.call? name values else none
  match made with
  | some v => ⟨v, false⟩
  | none => ⟨.str (callSpelling name raw given values), unresolved⟩

mutual

/-- Evaluates a segment. -/
def Segment.eval (scope : Scope) (functions : Functions) (mode : Mode) : Segment → Piece
  | .text t => .text t
  | .reference name raw fallback =>
    .result
      (if mode.replaces then
        match scope name with
        | some v => ⟨v, false⟩
        | none => Segment.evalFallback scope functions mode raw fallback
      else ⟨.str raw, false⟩)
  | .call name args raw =>
    .result
      (callOutcome functions mode name raw
        (args.map (fun arg => Text.trimmed (Segment.rawOf arg)))
        (Segment.evalArgs scope functions mode args))
termination_by structural s => s

/-- Evaluates the fallback of a reference that was not found; without one it keeps its spelling. -/
def Segment.evalFallback (scope : Scope) (functions : Functions) (mode : Mode) (raw : String) :
    Option (List Segment) → Outcome
  | none => ⟨.str raw, true⟩
  | some segments => Piece.combine (Segment.evalList scope functions mode segments)
termination_by structural f => f

/-- Evaluates a list of segments. -/
def Segment.evalList (scope : Scope) (functions : Functions) (mode : Mode) :
    List Segment → List Piece
  | [] => []
  | s :: rest =>
    s.eval scope functions mode :: Segment.evalList scope functions mode rest
termination_by structural segments => segments

/-- Evaluates the arguments of a call, trimmed. -/
def Segment.evalArgs (scope : Scope) (functions : Functions) (mode : Mode) :
    List (List Segment) → List Outcome
  | [] => []
  | arg :: rest =>
    Piece.combine (Piece.trim (Segment.evalList scope functions mode arg)) ::
      Segment.evalArgs scope functions mode rest
termination_by structural args => args

end

/-- Whether a name is that of a function. -/
def Functions.contains (functions : Functions) (name : String) : Bool :=
  Table.has name functions

/-- Evaluates a text. -/
def evaluate (text : String) (scope : Scope) (functions : Functions) (mode : Mode) : Outcome :=
  let segments := Segment.parse functions.contains text
  if Segment.isDynamic segments then
    Piece.combine (Segment.evalList scope functions mode segments)
  else ⟨.str text, false⟩

/-- The text of the value of a text. -/
def evaluateText (text : String) (scope : Scope) (functions : Functions) (mode : Mode) : String :=
  (evaluate text scope functions mode).value.display

end Theming
