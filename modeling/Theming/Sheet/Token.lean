import Theming.Text.Blank
import Theming.Text.Search

set_option autoImplicit false

/-! # Tokens of templates

A template is cut into braces, colons, semicolons, parentheses, commas, slashes, strings, at-words,
comments, interpolations and words. Only gaps are skipped: the blanks space, tab, line feed,
carriage return and form feed between tokens. A token knows its text and the byte offsets of its two
ends. -/

namespace Theming.Sheet

/-- What a token is. -/
inductive Token.Kind where
  | comment
  | atKeyword
  | doubleQuoted
  | singleQuoted
  | braceOpen
  | braceClose
  | colon
  | semicolon
  | parenOpen
  | parenClose
  | comma
  | slash
  | interpolation
  | word
deriving Repr, DecidableEq

/-- A token with its byte offsets in the template. -/
structure Token where
  kind : Token.Kind
  text : List Char
  start : Nat
  stop : Nat
deriving Repr, DecidableEq

namespace Token

/-! ## Character classes -/

/-- A blank that separates tokens. -/
def isGap (c : Char) : Bool := c = ' ' || c = '\t' || c = '\n' || c = '\r' || c = '\x0c'

/-- The kind of a character that is a token by itself. -/
def single? (c : Char) : Option Kind :=
  if c = '\x7b' then some .braceOpen
  else if c = '\x7d' then some .braceClose
  else if c = ':' then some .colon
  else if c = ';' then some .semicolon
  else if c = '(' then some .parenOpen
  else if c = ')' then some .parenClose
  else if c = ',' then some .comma
  else none

/-- A character inside a word. -/
def isWordChar (c : Char) : Bool :=
  !(isGap c) && (single? c).isNone && c != '"' && c.toNat != 39 && c != '/' && c != '@'

/-- A character that an at-word may start with. -/
def isKeywordStart (c : Char) : Bool := c.isAlpha || c = '_' || c = '-'

/-- A character inside an at-word. -/
def isKeywordChar (c : Char) : Bool := c.isAlphanum || c = '_' || c = '-'

/-! ## Scanning -/

/-- The length of the inside of a comment with its closing mark, or of everything if there is
    none. -/
def commentLength : List Char → Nat
  | [] => 0
  | '*' :: '/' :: _ => 2
  | _ :: rest => commentLength rest + 1

/-- The length of a string after its opening quote, and whether the closing quote is there. A
    backslash takes the next character with it. A line feed ends a string that is not closed, and so
    does a backslash in front of one or at the end. -/
def stringLength (quote : Char) : List Char → Bool × Nat
  | [] => (false, 0)
  | ['\\'] => (false, 0)
  | '\\' :: c :: rest =>
    if c = '\n' then (false, 0)
    else
      let (closed, n) := stringLength quote rest
      (closed, n + 2)
  | c :: rest =>
    if c = quote then (true, 1)
    else if c = '\n' then (false, 0)
    else
      let (closed, n) := stringLength quote rest
      (closed, n + 1)

/-- The token that a quote starts. -/
def afterQuote (kind : Kind) (quote : Char) (rest : List Char) : Kind × Nat :=
  let (closed, n) := stringLength quote rest
  (if closed then kind else .word, n)

/-- The token that starts with a dollar sign. An interpolation ends at the next closing brace; if
    there is none, all that is left is one word. -/
def afterDollar : List Char → Kind × Nat
  | '\x7b' :: rest =>
    if rest.contains '\x7d' then (.interpolation, (rest.takeWhile (· != '\x7d')).length + 2)
    else (.word, rest.length + 1)
  | rest => (.word, (rest.takeWhile isWordChar).length)

/-- The token that starts with an at sign. -/
def afterAt : List Char → Kind × Nat
  | c :: rest =>
    if isKeywordStart c then (.atKeyword, (rest.takeWhile isKeywordChar).length + 1) else (.word, 0)
  | [] => (.word, 0)

/-- The token that starts with a slash. -/
def afterSlash : List Char → Kind × Nat
  | '*' :: rest => (.comment, commentLength rest + 1)
  | _ => (.slash, 0)

/-- The token that starts with a character: its kind and the number of characters after it. -/
def next (c : Char) (rest : List Char) : Kind × Nat :=
  match single? c with
  | some kind => (kind, 0)
  | none =>
    if c = '/' then afterSlash rest
    else if c = '@' then afterAt rest
    else if c = '$' then afterDollar rest
    else if c = '"' then afterQuote .doubleQuoted c rest
    else if c.toNat = 39 then afterQuote .singleQuoted c rest
    else (.word, (rest.takeWhile isWordChar).length)

/-- Cuts a text that starts at a byte offset into tokens. -/
def scanFrom (offset : Nat) : List Char → List Token
  | [] => []
  | c :: rest =>
    if isGap c then scanFrom (offset + c.utf8Size) rest
    else
      let (kind, count) := next c rest
      let text := c :: rest.take count
      let stop := offset + Text.byteLength text
      ⟨kind, text, offset, stop⟩ :: scanFrom stop (rest.drop count)
termination_by s => s.length
decreasing_by
  all_goals simp only [List.length_drop, List.length_cons]
  all_goals omega

/-- Cuts a template into tokens. -/
def scan (template : String) : List Token := scanFrom 0 template.toList

/-! ## Reading tokens back as text -/

/-- The text of the tokens after one that stops at `last`: comments are dropped, and a gap or a
    dropped comment becomes one space. -/
def joinAfter (last : Nat) (gap : Bool) : List Token → List Char
  | [] => []
  | t :: rest =>
    if t.kind = .comment then joinAfter last true rest
    else
      let space := if gap || last < t.start then [' '] else []
      space ++ t.text ++ joinAfter t.stop false rest

/-- The text of a run of tokens without its comments, each gap collapsed to one space. -/
def joinText : List Token → List Char
  | [] => []
  | t :: rest =>
    if t.kind = .comment then joinText rest else t.text ++ joinAfter t.stop false rest

/-- The text of a run of tokens, as a string. -/
def join (tokens : List Token) : String := String.ofList (joinText tokens)

/-- The nesting depth of parentheses after a token. -/
def depthAfter (depth : Nat) (t : Token) : Nat :=
  match t.kind with
  | .parenOpen => depth + 1
  | .parenClose => depth - 1
  | _ => depth

/-- Splits at the first token of a kind outside parentheses. -/
def cutAt (kind : Kind) : Nat → List Token → List Token × Option (List Token)
  | _, [] => ([], none)
  | depth, t :: rest =>
    if t.kind = kind ∧ depth = 0 then ([], some rest)
    else
      let (before, after) := cutAt kind (depthAfter depth t) rest
      (t :: before, after)

/-- The parts between the tokens of a kind outside parentheses. -/
def splitAt (kind : Kind) : Nat → List Token → List (List Token)
  | _, [] => [[]]
  | depth, t :: rest =>
    if t.kind = kind ∧ depth = 0 then [] :: splitAt kind 0 rest
    else
      match splitAt kind (depthAfter depth t) rest with
      | [] => [[t]]
      | part :: others => (t :: part) :: others

end Token

end Theming.Sheet
