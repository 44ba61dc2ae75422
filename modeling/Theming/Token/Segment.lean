import Theming.Text.Blank
import Theming.Text.Search
import Theming.Token.Lexeme

set_option autoImplicit false

/-! # Segments of expressions

An expression is a list of segments: plain text, references and calls. Which names are functions is
a parameter; a name that is none, and anything else that does not form a segment, is plain text.
Neighbouring texts are one segment. -/

namespace Theming

/-- A piece of an expression, with its spelling. -/
inductive Segment where
  | text (t : String)
  | reference (name raw : String) (fallback : Option (List Segment))
  | call (name : String) (args : List (List Segment)) (raw : String)
deriving Repr, Inhabited

namespace Segment

/-! ## Spelling -/

/-- The spelling of a segment. -/
def raw : Segment → String
  | .text t => t
  | .reference _ raw _ => raw
  | .call _ _ raw => raw

/-- The spelling of a list of segments. -/
def rawOf (segments : List Segment) : String := String.join (segments.map raw)

/-- Whether a segment is plain text. -/
def isText : Segment → Bool
  | .text _ => true
  | _ => false

/-- Whether evaluation could change anything. -/
def isDynamic (segments : List Segment) : Bool := segments.any (fun s => !s.isText)

/-- Puts text in front of segments, joined with the text that they start with. -/
def pushText (t : String) : List Segment → List Segment
  | .text u :: rest => .text (t ++ u) :: rest
  | segments => .text t :: segments

/-! ## Trimming -/

/-- Trims the text that the segments start with. -/
def trimFirst : List Segment → List Segment
  | .text t :: rest => .text (String.ofList (Text.trimStart t.toList)) :: rest
  | segments => segments

/-- Trims the text that the segments end with. -/
def trimLast : List Segment → List Segment
  | [] => []
  | [.text t] => [.text (String.ofList (Text.trimEnd t.toList))]
  | s :: rest => s :: trimLast rest

/-- Whether a segment is more than an empty text. -/
def isFilled : Segment → Bool
  | .text t => t != ""
  | _ => true

/-- Trims the texts at both ends and drops empty texts. -/
def trim (segments : List Segment) : List Segment :=
  (trimLast (trimFirst segments)).filter isFilled

/-! ## Parsing -/

/-- The name in a braced reference, without the braces and the blanks inside them. -/
def bracedName (text : List Char) : List Char := Text.trim ((text.drop 2).dropLast)

/-- The name in the first argument of a `var` call: what follows two hyphens, if it is not
    empty. -/
def variableName? (first : List Lexeme) : Option String := do
  let name ← Text.dropPrefix? ['-', '-'] (Text.trim (Lexeme.join first))
  let name := Text.trim name
  if name.isEmpty then none else some (String.ofList name)

/-- The spelling of a call. -/
def callText (name : List Char) (inner : List Lexeme) : String :=
  String.ofList (name ++ '(' :: (Lexeme.join inner ++ [')']))

/-- The name of the function that refers to a token. -/
def variableFunction : List Char := ['v', 'a', 'r']

/-- The segments of a list of lexemes. -/
def ofLexemes (isFunction : String → Bool) : List Lexeme → List Segment
  | [] => []
  | l :: rest =>
    match l.kind with
    | .reference =>
      .reference (String.ofList (l.text.drop 1)) (String.ofList l.text) none ::
        ofLexemes isFunction rest
    | .braced =>
      let name := bracedName l.text
      if name.isEmpty then pushText (String.ofList l.text) (ofLexemes isFunction rest)
      else
        .reference (String.ofList name) (String.ofList l.text) none :: ofLexemes isFunction rest
    | .name =>
      match _h : Lexeme.callAfter? rest with
      | some (inner, after) =>
        if l.text = variableFunction then
          match variableName? (Lexeme.cutComma 0 inner).1 with
          | some name =>
            let fallback :=
              match _hc : (Lexeme.cutComma 0 inner).2 with
              | some others => some (trim (ofLexemes isFunction others))
              | none => none
            .reference name (callText l.text inner) fallback :: ofLexemes isFunction after
          | none => pushText (callText l.text inner) (ofLexemes isFunction after)
        else if isFunction (String.ofList l.text) then
          .call (String.ofList l.text)
              ((Lexeme.arguments inner).attach.map (fun arg => ofLexemes isFunction arg.1))
              (callText l.text inner) ::
            ofLexemes isFunction after
        else pushText (String.ofList l.text) (ofLexemes isFunction rest)
      | none => pushText (String.ofList l.text) (ofLexemes isFunction rest)
    | _ => pushText (String.ofList l.text) (ofLexemes isFunction rest)
termination_by ls => ls.length
decreasing_by
  all_goals simp only [List.length_cons]
  all_goals try omega
  · have := Lexeme.length_callAfter? _h
    have := Lexeme.length_cutComma _hc
    omega
  · have := Lexeme.length_callAfter? _h
    omega
  · have := Lexeme.length_callAfter? _h
    omega
  · have := Lexeme.length_callAfter? _h
    have := Lexeme.length_of_mem_arguments arg.2
    omega
  · have := Lexeme.length_callAfter? _h
    omega

/-- The segments of a text. -/
def parse (isFunction : String → Bool) (text : String) : List Segment :=
  ofLexemes isFunction (Lexeme.scan text.toList)

/-! ## References -/

mutual

/-- The names that a segment refers to, in order, also inside arguments and fallbacks. -/
def names : Segment → List String
  | .text _ => []
  | .reference name _ fallback => name :: namesOfFallback fallback
  | .call _ args _ => namesOfArgs args
termination_by structural s => s

/-- The names in a fallback. -/
def namesOfFallback : Option (List Segment) → List String
  | none => []
  | some segments => namesOf segments
termination_by structural f => f

/-- The names in a list of segments. -/
def namesOf : List Segment → List String
  | [] => []
  | s :: rest => s.names ++ namesOf rest
termination_by structural segments => segments

/-- The names in the arguments of a call. -/
def namesOfArgs : List (List Segment) → List String
  | [] => []
  | arg :: rest => namesOf arg ++ namesOfArgs rest
termination_by structural args => args

end

mutual

/-- Whether a segment is a reference or has one among its arguments. -/
def refers : Segment → Bool
  | .text _ => false
  | .reference _ _ _ => true
  | .call _ args _ => argsRefer args
termination_by structural s => s

/-- Whether one of the segments refers to something. -/
def anyRefers : List Segment → Bool
  | [] => false
  | s :: rest => s.refers || anyRefers rest
termination_by structural segments => segments

/-- Whether one of the arguments refers to something. -/
def argsRefer : List (List Segment) → Bool
  | [] => false
  | arg :: rest => anyRefers arg || argsRefer rest
termination_by structural args => args

end

/-- Whether a text may hold a reference that evaluation would act on: any dollar sign counts, and a
    `var` call that refers to something under any reading of names as functions. -/
def mayRefer (text : String) : Bool :=
  text.toList.contains '$' ||
    (Text.occurs ['v', 'a', 'r', '('] text.toList && anyRefers (parse (fun _ => true) text))

/-- The names that a text refers to, in order of appearance. -/
def referencedNames (isFunction : String → Bool) (text : String) : List String :=
  namesOf (parse isFunction text)

end Segment

end Theming
