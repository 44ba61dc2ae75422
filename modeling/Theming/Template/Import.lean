import Theming.Text.Blank
import Theming.Text.Search

set_option autoImplicit false

/-! # Import directives

A directive names another template: `@import` and blanks, then the name, which may stand in quotes
and in `url(…)`, and possibly a semicolon. Directives are found by their form alone, wherever they
stand in a text. -/

namespace Theming.Template

/-! ## One directive -/

/-- A double or single quote. -/
def isQuote (c : Char) : Bool := c = '"' || c.toNat = 39

/-- A character of a name in a directive. -/
def isTargetChar (c : Char) : Bool := !isQuote c && c != ')' && c != ';' && !Text.isBlank c

/-- Drops the first character if it is of a class. -/
def dropOne (p : Char → Bool) : List Char → List Char
  | [] => []
  | c :: rest => if p c then rest else c :: rest

theorem length_dropOne_le (p : Char → Bool) (s : List Char) : (dropOne p s).length ≤ s.length := by
  cases s with
  | nil => exact Nat.le_refl _
  | cons c rest =>
    rw [dropOne]
    split
    · exact Nat.le_succ _
    · exact Nat.le_refl _

theorem length_trimStart_le (s : List Char) : (Text.trimStart s).length ≤ s.length :=
  (List.dropWhile_sublist Text.isBlank).length_le

/-- The name at the front of a text, possibly behind a quote, with the text behind it. -/
def target? (s : List Char) : Option (List Char × List Char) :=
  let s := dropOne isQuote s
  let name := s.takeWhile isTargetChar
  if name.isEmpty then none else some (name, s.dropWhile isTargetChar)

theorem length_target? {s name rest : List Char} (h : target? s = some (name, rest)) :
    rest.length ≤ s.length := by
  simp only [target?] at h
  split at h
  · cases h
  · simp only [Option.some.injEq, Prod.mk.injEq] at h
    have h1 := (List.dropWhile_sublist isTargetChar (l := dropOne isQuote s)).length_le
    have h2 := length_dropOne_le isQuote s
    rw [← h.2]
    omega

/-- The name after the blanks of a directive, `url(` set aside if a name follows it. -/
def argument? (s : List Char) : Option (List Char × List Char) :=
  match (Text.dropPrefix? "url(".toList s).bind target? with
  | some found => some found
  | none => target? s

theorem length_argument? {s name rest : List Char} (h : argument? s = some (name, rest)) :
    rest.length ≤ s.length := by
  simp only [argument?] at h
  split at h
  · next found hf =>
    obtain ⟨r, hr, ht⟩ := Option.bind_eq_some_iff.1 hf
    cases h
    have h1 := length_target? ht
    have h2 := congrArg List.length (Text.dropPrefix?_eq_some_iff.1 hr)
    simp only [List.length_append] at h2
    omega
  · exact length_target? h

/-- The name in the directive at the front of a text, with the text behind the directive. -/
def directive? (s : List Char) : Option (List Char × List Char) :=
  match Text.dropPrefix? "@import".toList s with
  | none => none
  | some rest =>
    if (rest.head?.map Text.isBlank).getD false then
      (argument? (Text.trimStart rest)).map (fun (name, rest) =>
        (name,
          dropOne (· = ';') (Text.trimStart (dropOne (· = ')') (dropOne isQuote rest)))))
    else none

theorem length_directive? {s name rest : List Char} (h : directive? s = some (name, rest)) :
    rest.length < s.length := by
  simp only [directive?] at h
  split at h
  · cases h
  · next r hr =>
    split at h
    · obtain ⟨⟨n, t⟩, ha, he⟩ := Option.map_eq_some_iff.1 h
      simp only [Prod.mk.injEq] at he
      have h0 := congrArg List.length (Text.dropPrefix?_eq_some_iff.1 hr)
      have h1 := length_argument? ha
      have h2 := length_trimStart_le r
      have h3 := length_dropOne_le isQuote t
      have h4 := length_dropOne_le (· = ')') (dropOne isQuote t)
      have h5 := length_trimStart_le (dropOne (· = ')') (dropOne isQuote t))
      have h6 := length_dropOne_le (· = ';')
        (Text.trimStart (dropOne (· = ')') (dropOne isQuote t)))
      rw [← he.2]
      simp only [List.length_append] at h0
      have : "@import".toList.length = 7 := by decide
      omega
    · cases h

/-! ## All directives of a text -/

/-- A part of a text: a character, or a directive with its spelling. -/
inductive Part where
  | char (c : Char)
  | directive (spelling : List Char) (target : String)
deriving Repr, DecidableEq

/-- The parts of a text in order. -/
def parts : List Char → List Part
  | [] => []
  | c :: rest =>
    match _h : directive? (c :: rest) with
    | some (name, after) =>
      .directive ((c :: rest).take ((c :: rest).length - after.length)) (String.ofList name) ::
        parts after
    | none => .char c :: parts rest
termination_by s => s.length
decreasing_by
  · exact length_directive? _h
  · simp

/-- The names that the directives of a text name, in order. -/
def targets (text : String) : List String :=
  (parts text.toList).filterMap (fun part =>
    match part with
    | .char _ => none
    | .directive _ target => some target)

end Theming.Template
