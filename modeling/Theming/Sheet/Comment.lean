import Theming.Text.Blank
import Theming.Text.Search

set_option autoImplicit false

/-! # Comments and blanks in templates

The text inside a comment, and the two steps that bring a template into plain form: every comment
becomes one space, and blanks are collapsed line by line. -/

namespace Theming.Sheet

/-- The text inside a comment, without its marks and the blanks at both ends. -/
def commentBody (raw : List Char) : List Char :=
  let inner := (Text.dropPrefix? ['/', '*'] raw).getD raw
  Text.trim ((Text.dropSuffix? ['*', '/'] inner).getD inner)

/-- The text after the end of a comment; nothing is left if it does not end. -/
def afterComment : List Char → List Char
  | [] => []
  | '*' :: '/' :: rest => rest
  | _ :: rest => afterComment rest

theorem length_afterComment_le (s : List Char) : (afterComment s).length ≤ s.length := by
  fun_induction afterComment s with
  | case1 => simp
  | case2 rest => simp only [List.length_cons]; omega
  | case3 c rest h ih => simp only [List.length_cons]; omega

/-- The text with every comment replaced by one space. -/
def stripComments : List Char → List Char
  | [] => []
  | '/' :: '*' :: rest => ' ' :: stripComments (afterComment rest)
  | c :: rest => c :: stripComments rest
termination_by s => s.length
decreasing_by
  · have := length_afterComment_le rest
    simp only [List.length_cons]
    omega
  · simp

/-- The words of a line with single spaces between them. -/
def normalizeLine (line : List Char) : List Char := Text.joinWith [' '] (Text.words line)

/-- The text with blanks collapsed to single spaces, line by line, and blank lines dropped. -/
def normalizeBlanks (s : List Char) : List Char :=
  Text.joinWith ['\n'] (((Text.lines s).map normalizeLine).filter (fun line => !line.isEmpty))

/-- The plain form of a template: without comments and with blanks collapsed. -/
def plainForm (template : String) : String :=
  String.ofList (normalizeBlanks (stripComments template.toList))

end Theming.Sheet
