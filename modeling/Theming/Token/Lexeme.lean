set_option autoImplicit false

/-! # Lexemes of expressions

The text of a value is cut into references, names, parentheses, commas and runs of other
characters. Nothing is skipped: the texts of the lexemes, joined, are the text of the value
(`join_scan`). -/

namespace Theming

/-- What a piece of an expression is. -/
inductive Lexeme.Kind where
  /-- A reference in braces, `${path}`. -/
  | braced
  /-- A reference by name, `$name` or `$path.to.name`. -/
  | reference
  /-- A name without a mark. -/
  | name
  | opening
  | closing
  | comma
  | other
deriving Repr, DecidableEq

/-- A piece of an expression. -/
structure Lexeme where
  kind : Lexeme.Kind
  text : List Char
deriving Repr, DecidableEq

namespace Lexeme

/-! ## Character classes -/

/-- A character that a name may start with. -/
def isNameStart (c : Char) : Bool := c.isAlpha || c = '_'

/-- A character inside a name. -/
def isNameChar (c : Char) : Bool := c.isAlphanum || c = '_' || c = '-'

/-- A character that has no meaning of its own. -/
def isOther (c : Char) : Bool :=
  !(isNameStart c) && c != '$' && c != '(' && c != ')' && c != ','

/-! ## Scanning -/

/-- The length of a dotted name: characters of names, and points with such a character after
    them. -/
def dottedLength : List Char → Nat
  | [] => 0
  | c :: rest =>
    if isNameChar c then dottedLength rest + 1
    else if c = '.' && rest.head?.any isNameChar then dottedLength rest + 1
    else 0

/-- What a dollar sign starts: its kind and the number of characters after it. An opening brace
    that is never closed makes all that is left plain text. -/
def afterDollar : List Char → Kind × Nat
  | '\x7b' :: rest =>
    if rest.contains '\x7d' then (.braced, (rest.takeWhile (· != '\x7d')).length + 2)
    else (.other, rest.length + 1)
  | c :: rest => if isNameStart c then (.reference, dottedLength (c :: rest)) else (.other, 0)
  | [] => (.other, 0)

/-- The lexeme that starts with a character: its kind and the number of characters after it. -/
def next (c : Char) (rest : List Char) : Kind × Nat :=
  if c = '$' then afterDollar rest
  else if c = '(' then (.opening, 0)
  else if c = ')' then (.closing, 0)
  else if c = ',' then (.comma, 0)
  else if isNameStart c then (.name, (rest.takeWhile isNameChar).length)
  else (.other, (rest.takeWhile isOther).length)

/-- Cuts a text into lexemes. -/
def scan : List Char → List Lexeme
  | [] => []
  | c :: rest =>
    let (kind, count) := next c rest
    ⟨kind, c :: rest.take count⟩ :: scan (rest.drop count)
termination_by s => s.length
decreasing_by simp only [List.length_drop, List.length_cons]; omega

/-- The text of a list of lexemes. -/
def join (lexemes : List Lexeme) : List Char := lexemes.flatMap Lexeme.text

theorem join_scan (s : List Char) : join (scan s) = s := by
  fun_induction scan s with
  | case1 => rfl
  | case2 c rest kind count h ih =>
    simp only [join, List.flatMap_cons, List.cons_append] at ih ⊢
    rw [ih, List.take_append_drop]

/-! ## Parentheses and commas -/

/-- Splits what follows an opening parenthesis at the closing one that matches it, with `depth`
    more parentheses open. -/
def untilClosing : Nat → List Lexeme → Option (List Lexeme × List Lexeme)
  | _, [] => none
  | depth, l :: rest =>
    match l.kind with
    | .closing =>
      match depth with
      | 0 => some ([], rest)
      | depth + 1 => (untilClosing depth rest).map (fun (inner, after) => (l :: inner, after))
    | .opening => (untilClosing (depth + 1) rest).map (fun (inner, after) => (l :: inner, after))
    | _ => (untilClosing depth rest).map (fun (inner, after) => (l :: inner, after))

/-- The contents of a call and what follows it, when a name is followed by parentheses. -/
def callAfter? : List Lexeme → Option (List Lexeme × List Lexeme)
  | l :: rest => if l.kind = .opening then untilClosing 0 rest else none
  | [] => none

/-- The nesting depth after a lexeme. -/
def depthAfter (depth : Nat) (l : Lexeme) : Nat :=
  match l.kind with
  | .opening => depth + 1
  | .closing => depth - 1
  | _ => depth

/-- Splits at the first comma outside parentheses. -/
def cutComma : Nat → List Lexeme → List Lexeme × Option (List Lexeme)
  | _, [] => ([], none)
  | depth, l :: rest =>
    if l.kind = .comma ∧ depth = 0 then ([], some rest)
    else
      let (first, others) := cutComma (depthAfter depth l) rest
      (l :: first, others)

/-- The parts between the commas outside parentheses. -/
def parts : Nat → List Lexeme → List (List Lexeme)
  | _, [] => [[]]
  | depth, l :: rest =>
    if l.kind = .comma ∧ depth = 0 then [] :: parts 0 rest
    else
      match parts (depthAfter depth l) rest with
      | [] => [[l]]
      | part :: others => (l :: part) :: others

/-- The arguments in the contents of a call; none if it is empty. -/
def arguments (inner : List Lexeme) : List (List Lexeme) :=
  if inner.isEmpty then [] else parts 0 inner

/-! ## Sizes -/

theorem length_untilClosing {depth : Nat} {ls inner after : List Lexeme}
    (h : untilClosing depth ls = some (inner, after)) :
    inner.length + after.length < ls.length := by
  induction ls generalizing depth inner after with
  | nil => simp [untilClosing] at h
  | cons l rest ih =>
    simp only [untilClosing] at h
    have step : ∀ d, (untilClosing d rest).map (fun (i, a) => (l :: i, a)) = some (inner, after) →
        inner.length + after.length < (l :: rest).length := by
      intro d hd
      obtain ⟨⟨i, a⟩, hi, he⟩ := Option.map_eq_some_iff.1 hd
      simp only [Prod.mk.injEq] at he
      have := ih hi
      simp only [← he.1, ← he.2, List.length_cons]
      omega
    split at h
    · split at h
      · simp only [Option.some.injEq, Prod.mk.injEq] at h
        simp [← h.1, ← h.2]
      · exact step _ h
    · exact step _ h
    · exact step _ h

theorem length_callAfter? {ls inner after : List Lexeme}
    (h : callAfter? ls = some (inner, after)) : inner.length + after.length < ls.length := by
  cases ls with
  | nil => simp [callAfter?] at h
  | cons l rest =>
    simp only [callAfter?] at h
    split at h
    · have := length_untilClosing h
      simp only [List.length_cons]
      omega
    · simp at h

theorem length_cutComma {depth : Nat} {ls rest : List Lexeme}
    (h : (cutComma depth ls).2 = some rest) : rest.length < ls.length := by
  induction ls generalizing depth with
  | nil => simp [cutComma] at h
  | cons l ls ih =>
    simp only [cutComma] at h
    split at h
    · simp only [Option.some.injEq] at h
      simp [h]
    · have := ih h
      simp only [List.length_cons]
      omega

theorem length_of_mem_parts {depth : Nat} {ls part : List Lexeme} (h : part ∈ parts depth ls) :
    part.length ≤ ls.length := by
  induction ls generalizing depth part with
  | nil => simp_all [parts]
  | cons l ls ih =>
    simp only [parts] at h
    split at h
    · rcases List.mem_cons.1 h with rfl | h
      · simp
      · have := ih h
        simp only [List.length_cons]
        omega
    · split at h
      · simp_all
      · rename_i head others heq
        rcases List.mem_cons.1 h with rfl | h
        · have := ih (heq ▸ List.mem_cons_self (a := head) (l := others))
          simp only [List.length_cons]
          omega
        · have := ih (heq ▸ List.mem_cons_of_mem head h)
          simp only [List.length_cons]
          omega

theorem length_of_mem_arguments {inner part : List Lexeme} (h : part ∈ arguments inner) :
    part.length ≤ inner.length := by
  unfold arguments at h
  split at h
  · simp at h
  · exact length_of_mem_parts h

end Lexeme

end Theming
