set_option autoImplicit false

/-! # Blanks: trimming, words and lines

Blanks are the characters with the Unicode property `White_Space`. Texts are handled here as
character lists; the functions on `String` at the end only convert. -/

namespace Theming.Text

/-! ## The class -/

/-- The characters with the property `White_Space`. -/
def isBlank (c : Char) : Bool :=
  let n := c.toNat
  (9 ≤ n && n ≤ 13) || n == 32 || n == 0x85 || n == 0xA0 || n == 0x1680 ||
    (0x2000 ≤ n && n ≤ 0x200A) || n == 0x2028 || n == 0x2029 || n == 0x202F ||
    n == 0x205F || n == 0x3000

theorem isBlank_space : isBlank ' ' = true := by decide

/-! ## Trimming -/

/-- Drops the blanks in front. -/
def trimStart (s : List Char) : List Char := s.dropWhile isBlank

/-- Drops the blanks at the end. -/
def trimEnd : List Char → List Char
  | [] => []
  | c :: rest =>
    match trimEnd rest with
    | [] => if isBlank c then [] else [c]
    | kept => c :: kept

/-- Drops the blanks at both ends. -/
def trim (s : List Char) : List Char := trimEnd (trimStart s)

/-! ## Pieces, words and lines -/

/-- The pieces between the characters that satisfy `cut`; one more than there are cuts. -/
def pieces (cut : Char → Bool) : List Char → List (List Char)
  | [] => [[]]
  | c :: rest =>
    if cut c then [] :: pieces cut rest
    else
      match pieces cut rest with
      | [] => [[c]]
      | piece :: others => (c :: piece) :: others

/-- The maximal runs of non-blank characters. -/
def words (s : List Char) : List (List Char) :=
  (pieces isBlank s).filter (fun piece => !piece.isEmpty)

/-- Drops one carriage return at the end. -/
def dropReturn (line : List Char) : List Char :=
  if line.getLast? = some '\r' then line.dropLast else line

/-- The lines among the pieces between line feeds: a line feed (with the carriage return before
    it) ends a line, and text after the last one is a line of its own unless it is empty. -/
def closedLines : List (List Char) → List (List Char)
  | [] => []
  | [last] => if last.isEmpty then [] else [last]
  | line :: others => dropReturn line :: closedLines others

/-- The lines of a text. -/
def lines (s : List Char) : List (List Char) := closedLines (pieces (· == '\n') s)

/-- Joins texts with a separator between neighbours. -/
def joinWith (sep : List Char) : List (List Char) → List Char
  | [] => []
  | [last] => last
  | piece :: others => piece ++ sep ++ joinWith sep others

/-! ## On strings -/

/-- The text without the blanks at both ends. -/
def trimmed (s : String) : String := String.ofList (trim s.toList)

/-- Whether a text holds nothing but blanks. -/
def allBlank (s : String) : Bool := s.toList.all isBlank

end Theming.Text
