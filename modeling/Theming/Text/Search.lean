set_option autoImplicit false

/-! # Finding and replacing inside texts

Occurrence tests, cuts at both ends and replacement of single characters, on character lists. -/

namespace Theming.Text

/-- The text after `start`, if the text starts with it. -/
def dropPrefix? : List Char → List Char → Option (List Char)
  | [], s => some s
  | _ :: _, [] => none
  | p :: ps, c :: cs => if p = c then dropPrefix? ps cs else none

theorem dropPrefix?_eq_some_iff {p s r : List Char} :
    dropPrefix? p s = some r ↔ s = p ++ r := by
  induction p generalizing s with
  | nil => simp [dropPrefix?]
  | cons a p ih =>
    cases s with
    | nil => simp [dropPrefix?]
    | cons c cs =>
      by_cases h : a = c
      · simp [dropPrefix?, h, ih]
      · simp [dropPrefix?, h, Ne.symm h]

/-- The text before `tail`, if the text ends with it. -/
def dropSuffix? (tail s : List Char) : Option (List Char) :=
  (dropPrefix? tail.reverse s.reverse).map List.reverse

theorem dropSuffix?_eq_some_iff {t s r : List Char} :
    dropSuffix? t s = some r ↔ s = r ++ t := by
  simp only [dropSuffix?, Option.map_eq_some_iff, dropPrefix?_eq_some_iff]
  constructor
  · rintro ⟨a, h, rfl⟩
    have := congrArg List.reverse h
    simpa using this
  · rintro rfl
    exact ⟨r.reverse, by simp, by simp⟩

/-- Whether `s` starts with `start`. -/
def startsWith (start s : List Char) : Bool := (dropPrefix? start s).isSome

theorem startsWith_iff {start s : List Char} : startsWith start s = true ↔ start <+: s := by
  simp only [startsWith, Option.isSome_iff_exists, dropPrefix?_eq_some_iff]
  exact ⟨fun ⟨r, h⟩ => ⟨r, h.symm⟩, fun ⟨r, h⟩ => ⟨r, h.symm⟩⟩

/-- Whether `s` ends with `tail`. -/
def endsWith (tail s : List Char) : Bool := (dropSuffix? tail s).isSome

/-- Whether `needle` occurs in the text. -/
def occurs (needle : List Char) : List Char → Bool
  | [] => startsWith needle []
  | c :: rest => startsWith needle (c :: rest) || occurs needle rest

theorem occurs_iff {needle s : List Char} : occurs needle s = true ↔ needle <:+: s := by
  induction s with
  | nil => rw [occurs, startsWith_iff, List.prefix_nil, List.infix_nil]
  | cons c rest ih => rw [occurs, Bool.or_eq_true, startsWith_iff, ih, List.infix_cons_iff]

/-- Cuts at the first occurrence of `mark`: the text before it and the text after it. -/
def cutAt? (mark : List Char) : List Char → Option (List Char × List Char)
  | [] => if mark.isEmpty then some ([], []) else none
  | c :: rest =>
    match dropPrefix? mark (c :: rest) with
    | some after => some ([], after)
    | none => (cutAt? mark rest).map (fun (before, after) => (c :: before, after))

/-- Replaces every occurrence of one character by a text. -/
def replaceChar (old : Char) (new s : List Char) : List Char :=
  s.flatMap (fun c => if c = old then new else [c])

/-! ## On strings -/

/-- Whether `needle` occurs in `s`. -/
def contains (needle s : String) : Bool := occurs needle.toList s.toList

/-- Replaces one character by another. -/
def swapChar (old new : Char) (s : String) : String :=
  String.ofList (replaceChar old [new] s.toList)

/-- Whether a string starts with a character. -/
def headIs (c : Char) (s : String) : Bool := s.toList.head? == some c

/-- Lower-cases the letters A to Z and nothing else. -/
def asciiLower (s : String) : String := String.ofList (s.toList.map Char.toLower)

/-- The number of UTF-8 bytes of a text. -/
def byteLength : List Char → Nat
  | [] => 0
  | c :: rest => c.utf8Size + byteLength rest

theorem byteLength_append (x y : List Char) :
    byteLength (x ++ y) = byteLength x + byteLength y := by
  induction x with
  | nil => rw [List.nil_append, byteLength, Nat.zero_add]
  | cons c rest ih => rw [List.cons_append, byteLength, byteLength, ih, Nat.add_assoc]

theorem byteLength_pos {s : List Char} (h : s ≠ []) : 0 < byteLength s := by
  obtain ⟨c, rest, rfl⟩ := List.exists_cons_of_ne_nil h
  exact Nat.add_pos_left c.utf8Size_pos _

theorem utf8ByteSize_ofList (s : List Char) : (String.ofList s).utf8ByteSize = byteLength s := by
  induction s with
  | nil => rfl
  | cons c rest ih =>
    rw [String.ofList_cons, String.utf8ByteSize_append, String.utf8ByteSize_singleton, ih,
      byteLength]

end Theming.Text
