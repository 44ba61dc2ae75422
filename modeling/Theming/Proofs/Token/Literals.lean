import Theming.Proofs.Token.Lossless
import Theming.Token.Value

set_option autoImplicit false

/-! # How literals are shown

Numbers are read from and written in letters, digits, points and signs (`isNumeral_of_readFloat?`,
`isNumeral_text`), so there is no comma and no blank in one. A literal that is no number is shown as
it is spelled; a number is shown by its shortest decimal, so it keeps its spelling only if that is
how it is spelled (`display_ofLiteral_iff`). -/

namespace Theming

namespace Decimal

open Text (isBlank IsTrimmed)

/-! ## Characters of numbers -/

/-- A character that numbers are read from or written in. -/
def isNumeralChar (c : Char) : Bool := c.isAlphanum || c = '.' || c = '-' || c = '+'

/-- Whether a text has only characters of numbers. -/
def IsNumeral (s : List Char) : Prop := ∀ c ∈ s, isNumeralChar c = true

instance : DecidablePred IsNumeral := fun s => List.decidableBAll (isNumeralChar · = true) s

theorem isNumeralChar_of_isDigit {c : Char} (h : c.isDigit = true) : isNumeralChar c = true := by
  simp [isNumeralChar, Char.isAlphanum, h]

theorem isNumeralChar_of_isAlpha {c : Char} (h : c.isAlpha = true) : isNumeralChar c = true := by
  simp [isNumeralChar, Char.isAlphanum, h]

theorem isBlank_of_isNumeralChar {c : Char} (h : isNumeralChar c = true) : isBlank c = false := by
  simp only [isNumeralChar, Bool.or_eq_true, decide_eq_true_eq] at h
  rcases h with ((halphanum | rfl) | rfl) | rfl
  · exact Lexeme.isBlank_of_isNameChar (by simp [Lexeme.isNameChar, halphanum])
  · decide
  · decide
  · decide

theorem isNumeral_cons {c : Char} {s : List Char} (hc : isNumeralChar c = true) (hs : IsNumeral s) :
    IsNumeral (c :: s) :=
  List.forall_mem_cons.2 ⟨hc, hs⟩

theorem isNumeral_append {s t : List Char} (hs : IsNumeral s) (ht : IsNumeral t) :
    IsNumeral (s ++ t) :=
  List.forall_mem_append.2 ⟨hs, ht⟩

theorem IsNumeral.comma_notMem {s : List Char} (h : IsNumeral s) : ',' ∉ s :=
  fun hmem => absurd (h ',' hmem) (by decide)

theorem IsNumeral.isTrimmed {s : List Char} (h : IsNumeral s) : IsTrimmed s :=
  ⟨fun c hc => isBlank_of_isNumeralChar (h c (List.mem_of_head? hc)),
    fun c hc => isBlank_of_isNumeralChar (h c (List.mem_of_getLast? hc))⟩

/-! ## Numbers that are read -/

theorem isNumeral_of_isDigit {s : List Char} (h : ∀ c ∈ s, c.isDigit = true) : IsNumeral s :=
  fun c hc => isNumeralChar_of_isDigit (h c hc)

theorem isNumeral_of_readNat? {s : List Char} {n : Nat} (h : readNat? s = some n) :
    IsNumeral s := by
  rw [readNat?] at h
  split at h
  · next hall =>
    simp only [Bool.and_eq_true, List.all_eq_true] at hall
    exact isNumeral_of_isDigit hall.2
  · cases h

theorem isNumeral_of_readInt? {s : List Char} {n : Int} (h : readInt? s = some n) :
    IsNumeral s := by
  rw [readInt?.eq_def] at h
  split at h
  all_goals obtain ⟨m, hm, -⟩ := Option.bind_eq_some_iff.1 h
  · exact isNumeral_cons (by decide) (isNumeral_of_readNat? hm)
  · exact isNumeral_cons (by decide) (isNumeral_of_readNat? hm)
  · exact isNumeral_of_readNat? hm

theorem isNumeral_of_readExponent? {s : List Char} {e : Int} (h : readExponent? s = some e) :
    IsNumeral s := by
  rw [readExponent?.eq_def] at h
  split at h
  all_goals
    obtain ⟨_, hcast, -⟩ := Option.map_eq_some_iff.1 h
    obtain ⟨m, hm, -⟩ := Option.bind_eq_some_iff.1 hcast
  · exact isNumeral_cons (by decide) (isNumeral_of_readNat? hm)
  · exact isNumeral_cons (by decide) (isNumeral_of_readNat? hm)
  · exact isNumeral_of_readNat? hm

theorem isNumeral_of_readTail? {s : List Char} {e : Int} (h : readTail? s = some e) :
    IsNumeral s := by
  cases s with
  | nil => simp [IsNumeral]
  | cons c rest =>
    rw [readTail?] at h
    split at h
    · next hletter =>
      have hc : isNumeralChar c = true := by
        simp only [Bool.or_eq_true, decide_eq_true_eq] at hletter
        rcases hletter with rfl | rfl <;> decide
      exact isNumeral_cons hc (isNumeral_of_readExponent? h)
    · cases h

/-- Digits in front of numeral characters. -/
theorem isNumeral_of_takeDigits {s : List Char} (h : IsNumeral (takeDigits s).2) : IsNumeral s := by
  have hsplit := @List.takeWhile_append_dropWhile _ Char.isDigit s
  rw [takeDigits, List.span_eq_takeWhile_dropWhile] at h
  rw [← hsplit]
  refine isNumeral_append (isNumeral_of_isDigit fun c hc => ?_) h
  exact List.all_eq_true.1 List.all_takeWhile c hc

theorem isNumeral_of_map_toLower {s name : List Char} (h : s.map Char.toLower = name)
    (hname : name.all Char.isAlpha = true) : IsNumeral s := by
  intro c hc
  refine isNumeralChar_of_isAlpha ?_
  rw [← Char.isAlpha_toLower_eq_isAlpha]
  refine List.all_eq_true.1 hname _ ?_
  rw [← h]
  exact List.mem_map_of_mem hc

theorem isNumeral_of_readMagnitude? {s : List Char} {x : Float} (h : readMagnitude? s = some x) :
    IsNumeral s := by
  rw [readMagnitude?] at h
  dsimp only at h
  split at h
  · next hname =>
    simp only [Bool.or_eq_true, decide_eq_true_eq] at hname
    rcases hname with hname | hname <;> exact isNumeral_of_map_toLower hname (by decide)
  · split at h
    · next hname => exact isNumeral_of_map_toLower hname (by decide)
    · apply isNumeral_of_takeDigits
      split at h
      · next more hpoint =>
        rw [hpoint]
        split at h
        · cases h
        · obtain ⟨e, he, -⟩ := Option.map_eq_some_iff.1 h
          exact isNumeral_cons (by decide) (isNumeral_of_takeDigits (isNumeral_of_readTail? he))
      · split at h
        · cases h
        · obtain ⟨e, he, -⟩ := Option.map_eq_some_iff.1 h
          exact isNumeral_of_readTail? he

/-- **A number is read from characters of numbers only.** -/
theorem isNumeral_of_readFloat? {s : List Char} {x : Float} (h : readFloat? s = some x) :
    IsNumeral s := by
  rw [readFloat?.eq_def] at h
  split at h
  · exact isNumeral_cons (by decide) (isNumeral_of_readMagnitude? h)
  · obtain ⟨m, hm, -⟩ := Option.map_eq_some_iff.1 h
    exact isNumeral_cons (by decide) (isNumeral_of_readMagnitude? hm)
  · exact isNumeral_of_readMagnitude? h

/-! ## Numbers that are written -/

theorem isNumeral_digitChars (n : Nat) : IsNumeral (digitChars n) :=
  isNumeral_of_isDigit fun _ => Nat.isDigit_of_mem_toDigits (by decide) (by decide)

theorem isNumeral_replicate_zero (n : Nat) : IsNumeral (List.replicate n '0') := by
  intro c hc
  rw [List.eq_of_mem_replicate hc]
  decide

theorem isNumeral_toString (n : Int) : IsNumeral (toString n).toList := by
  cases n with
  | ofNat n =>
    have htext : toString (Int.ofNat n) = String.ofList (digitChars n) := rfl
    rw [htext, String.toList_ofList]
    exact isNumeral_digitChars n
  | negSucc n =>
    have htext : toString (Int.negSucc n) = "-" ++ String.ofList (digitChars (n + 1)) := rfl
    rw [htext, String.toList_append]
    refine isNumeral_append (by decide) ?_
    rw [String.toList_ofList]
    exact isNumeral_digitChars (n + 1)

theorem isNumeral_positional (d : Scaled) : IsNumeral d.positional := by
  have hdigits := isNumeral_digitChars d.digits
  rw [Scaled.positional]
  dsimp only
  split
  · exact isNumeral_append hdigits (isNumeral_replicate_zero _)
  · split
    · refine isNumeral_append (fun c hc => hdigits c (List.mem_of_mem_take hc)) ?_
      exact isNumeral_cons (by decide) (fun c hc => hdigits c (List.mem_of_mem_drop hc))
    · refine isNumeral_cons (by decide) (isNumeral_cons (by decide) ?_)
      exact isNumeral_append (isNumeral_replicate_zero _) hdigits

theorem isNumeral_signed (x : Float) {s : List Char} (h : IsNumeral s) :
    IsNumeral (signed x s).toList := by
  rw [signed, String.toList_ofList]
  split
  · exact isNumeral_cons (by decide) h
  · exact h

/-- **A number is written in characters of numbers only.** -/
theorem isNumeral_text (x : Float) : IsNumeral (text x).toList := by
  rw [text]
  split
  · decide
  · split
    · exact isNumeral_signed x (by decide)
    · exact isNumeral_signed x (isNumeral_positional _)

end Decimal

namespace Value

open Decimal (IsNumeral readInt? isNumeral_of_readInt? isNumeral_of_readFloat? isNumeral_toString
  isNumeral_text)
open Text (IsTrimmed)

/-! ## Literals -/

theorem isNumeral_of_floatLiteral? {s : List Char} {x : Float} (h : floatLiteral? s = some x) :
    IsNumeral s := by
  rw [floatLiteral?] at h
  split at h
  · exact isNumeral_of_readFloat? (Option.filter_eq_some_iff.1 h).1
  · cases h

/-- A literal is an integer, another number, or shown as it is spelled. -/
theorem ofLiteral_cases {s : String} (h : IsTrimmed s.toList) :
    (∃ n, readInt? s.toList = some n ∧ ofLiteral s = .int n) ∨
      (readInt? s.toList = none ∧ ∃ x, floatLiteral? s.toList = some x ∧ ofLiteral s = .float x) ∨
      (readInt? s.toList = none ∧ floatLiteral? s.toList = none ∧ (ofLiteral s).display = s) := by
  rw [ofLiteral]
  simp only [Text.trim_of_isTrimmed h, String.ofList_toList]
  cases readInt? s.toList with
  | some n => exact Or.inl ⟨n, rfl, rfl⟩
  | none =>
    cases floatLiteral? s.toList with
    | some x => exact Or.inr (Or.inl ⟨rfl, x, rfl, rfl⟩)
    | none =>
      refine Or.inr (Or.inr ⟨rfl, rfl, ?_⟩)
      dsimp only
      split
      · next htrue => rw [htrue]; rfl
      · split
        · next hfalse => rw [hfalse]; rfl
        · rfl

/-- Whether a literal is spelled as it is shown: an integer without a plus sign and superfluous
    zeros, another number by its shortest decimal. What is no number is. -/
def isCanonical (s : String) : Bool :=
  match readInt? s.toList with
  | some n => toString n == s
  | none =>
    match floatLiteral? s.toList with
    | some x => Decimal.text x == s
    | none => true

/-- **Literals are shown as they are spelled, numbers excepted.** -/
theorem display_ofLiteral_iff {s : String} (h : IsTrimmed s.toList) :
    (ofLiteral s).display = s ↔ isCanonical s = true := by
  rcases ofLiteral_cases h with ⟨n, hn, hs⟩ | ⟨hn, x, hx, hs⟩ | ⟨hn, hx, hs⟩
  · simp only [isCanonical, hn, hs, display, beq_iff_eq]
  · simp only [isCanonical, hn, hx, hs, display, beq_iff_eq]
  · simp only [isCanonical, hn, hx, hs]

/-- What is not shown as it is spelled is a number, before and after. -/
theorem isNumeral_of_display_ne {s : String} (h : IsTrimmed s.toList)
    (hne : (ofLiteral s).display ≠ s) :
    IsNumeral s.toList ∧ IsNumeral (ofLiteral s).display.toList := by
  rcases ofLiteral_cases h with ⟨n, hn, hs⟩ | ⟨-, x, hx, hs⟩ | ⟨-, -, hs⟩
  · exact ⟨isNumeral_of_readInt? hn, hs ▸ isNumeral_toString n⟩
  · exact ⟨isNumeral_of_floatLiteral? hx, hs ▸ isNumeral_text x⟩
  · exact absurd hs hne

end Value

end Theming
