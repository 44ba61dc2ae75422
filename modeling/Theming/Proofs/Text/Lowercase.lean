import Theming.Proofs.Text.Trimming
import Theming.Text.Lowercase

set_option autoImplicit false

/-! # Lower case is final

What lower-casing gives is not changed by lower-casing it again: no row of the table maps a
character to one that a row covers. Nor does it give a blank for anything but a blank, so that a
trimmed text stays trimmed.

Main statements: `lowerAfter_of_isLower` and `isLower_lowerAfter`. -/

namespace Theming.Text

/-! ## The table -/

/-- The number that a row maps a number to. -/
def CaseRow.image (row : CaseRow) (n : Nat) : Nat := (n + row.shift).toNat

/-- Whether what one row gives is covered by no other row: it lies beside it, or between what it
    covers. -/
def CaseRow.leaves (row other : CaseRow) : Bool :=
  Nat.blt (row.image row.last) other.first || Nat.blt other.last (row.image row.first) ||
    (Nat.blt 0 (row.image row.first) && (Nat.beq row.step 2 || Nat.beq row.first row.last) &&
      Nat.beq other.step 2 && !Nat.beq (row.image row.first % 2) (other.first % 2))

/-- What no row may give besides what rows cover: blanks, capital letters below the table, U+0130,
    and what is no character. -/
def obstacles : List CaseRow := [
  ⟨9, 13, 1, 0⟩, ⟨32, 32, 1, 0⟩, ⟨65, 90, 1, 0⟩, ⟨0x85, 0x85, 1, 0⟩, ⟨0xA0, 0xA0, 1, 0⟩,
  ⟨0x130, 0x130, 1, 0⟩, ⟨0x1680, 0x1680, 1, 0⟩, ⟨0x2000, 0x200A, 1, 0⟩, ⟨0x2028, 0x2029, 1, 0⟩,
  ⟨0x202F, 0x202F, 1, 0⟩, ⟨0x205F, 0x205F, 1, 0⟩, ⟨0x3000, 0x3000, 1, 0⟩, ⟨0xD800, 0xDFFF, 1, 0⟩]

/-- What a row gives is a character that is mapped to itself. -/
def CaseRow.isFinal (row : CaseRow) : Bool :=
  Nat.blt (row.image row.last) 0x110000 && (lowerRows ++ obstacles).all row.leaves

theorem isFinal_lowerRows : lowerRows.all CaseRow.isFinal = true := by decide +kernel

theorem CaseRow.covers_iff {row : CaseRow} {n : Nat} :
    row.covers n = true ↔ row.first ≤ n ∧ n ≤ row.last ∧ (n - row.first) % row.step = 0 := by
  simp [CaseRow.covers, and_assoc]

/-- A row covers nothing that a row which leaves it alone gives. -/
theorem CaseRow.not_covers_image {row other : CaseRow} {n : Nat} (h : row.leaves other = true)
    (hn : row.covers n = true) : other.covers (row.image n) = false := by
  obtain ⟨hfirst, hlast, hstep⟩ := covers_iff.1 hn
  have hlow : row.image row.first ≤ row.image n := by simp only [image]; omega
  have hhigh : row.image n ≤ row.image row.last := by simp only [image]; omega
  rw [Bool.eq_false_iff]
  intro hother
  obtain ⟨hfirst', hlast', hstep'⟩ := covers_iff.1 hother
  simp only [leaves, Bool.or_eq_true, Bool.and_eq_true, Nat.blt_eq, Nat.beq_eq, Bool.not_eq_true',
    ← Bool.not_eq_true] at h
  rcases h with (h | h) | ⟨⟨⟨hpos, hparity⟩, htwo⟩, hne⟩
  · omega
  · omega
  · rw [htwo] at hstep'
    -- Both keep their parity over all that they cover.
    have heven : (n - row.first) % 2 = 0 := by
      rcases hparity with hparity | hparity
      · rwa [hparity] at hstep
      · have : n - row.first = 0 := by omega
        rw [this]
    simp only [image] at hlow hpos hne hstep' hfirst'
    omega

/-! ## Single characters -/

/-- Lower-casing leaves a character as it is. -/
def IsLower (c : Char) : Prop := lowerChar c = [c]

theorem toNat_ofNat {n : Nat} (h : n.isValidChar) : (Char.ofNat n).toNat = n := by
  unfold Char.ofNat
  rw [dif_pos h]
  rfl

theorem lowerChar_ascii : ∀ n < 128, (lowerChar (Char.ofNat n)).all (fun d =>
    lowerChar d == [d] && (isBlank (Char.ofNat n) || !isBlank d)) = true := by
  decide +kernel

/-- A number that no row and no obstacle covers is that of a character which stays as it is. -/
theorem isLower_ofNat {n : Nat} (hvalid : n < 0x110000)
    (h : ∀ row ∈ lowerRows ++ obstacles, row.covers n = false) :
    IsLower (Char.ofNat n) ∧ isBlank (Char.ofNat n) = false := by
  have hrows : lowerRows.find? (fun row => row.covers n) = none :=
    List.find?_eq_none.2 (fun row hrow => by
      simp [h row (List.mem_append_left _ hrow)])
  have hobstacles : ∀ row ∈ obstacles, row.covers n = false :=
    fun row hrow => h row (List.mem_append_right _ hrow)
  simp only [obstacles, List.mem_cons, List.not_mem_nil, or_false, forall_eq_or_imp, forall_eq,
    CaseRow.covers, Nat.mod_one, beq_self_eq_true, Bool.and_eq_false_iff,
    decide_eq_false_iff_not, Nat.not_le, Bool.true_eq_false] at hobstacles
  have hnat : (Char.ofNat n).toNat = n := toNat_ofNat (by unfold Nat.isValidChar; omega)
  constructor
  · unfold IsLower lowerChar
    rw [hnat, hrows]
    split
    · next hascii =>
      have hkept : ∀ n < 128, (n < 65 ∨ 90 < n) → (Char.ofNat n).toLower = Char.ofNat n := by
        decide +kernel
      rw [hkept n hascii (by omega)]
    · rw [if_neg (by omega)]
  · unfold isBlank
    rw [hnat]
    simp only [Bool.or_eq_false_iff, Bool.and_eq_false_iff, decide_eq_false_iff_not, Nat.not_le,
      beq_eq_false_iff_ne, ne_eq]
    omega

/-- What a character is lower-cased to stays as it is, and is a blank only if it was one. -/
theorem mem_lowerChar {c d : Char} (h : d ∈ lowerChar c) :
    IsLower d ∧ (isBlank c = false → isBlank d = false) := by
  by_cases hascii : c.toNat < 128
  · rw [← Char.ofNat_toNat c] at h ⊢
    have hd := List.all_eq_true.1 (lowerChar_ascii c.toNat hascii) d h
    simp only [Bool.and_eq_true, beq_iff_eq, Bool.or_eq_true, Bool.not_eq_true'] at hd
    exact ⟨hd.1, fun hc => hd.2.resolve_left (Bool.eq_false_iff.1 hc)⟩
  · rw [lowerChar, if_neg hascii] at h
    split at h
    · have hparts : ['i', '\u0307'].all (fun d => lowerChar d == [d] && !isBlank d) = true := by
        decide +kernel
      have hd := List.all_eq_true.1 hparts d h
      simp only [Bool.and_eq_true, beq_iff_eq, Bool.not_eq_true'] at hd
      exact ⟨hd.1, fun _ => hd.2⟩
    · split at h
      · next row hrow =>
        have hcovers : row.covers c.toNat = true := by simpa using List.find?_some hrow
        have hfinal := List.all_eq_true.1 isFinal_lowerRows row (List.mem_of_find?_eq_some hrow)
        simp only [CaseRow.isFinal, Bool.and_eq_true, Nat.blt_eq] at hfinal
        have hlast := (CaseRow.covers_iff.1 hcovers).2.1
        have hvalid : row.image c.toNat < 0x110000 := by
          have : row.image c.toNat ≤ row.image row.last := by simp only [CaseRow.image]; omega
          omega
        have hstays := isLower_ofNat hvalid
          (fun other hother => CaseRow.not_covers_image (List.all_eq_true.1 hfinal.2 other hother)
            hcovers)
        rw [List.mem_singleton.1 h]
        exact ⟨hstays.1, fun _ => hstays.2⟩
      · next hnone =>
        have hself : lowerChar c = [c] := by
          unfold lowerChar
          rw [if_neg hascii, if_neg ‹_›, hnone]
        rw [List.mem_singleton.1 h]
        exact ⟨hself, id⟩

theorem isLower_sigmas : IsLower 'ς' ∧ IsLower 'σ' ∧ isBlank 'ς' = false ∧ isBlank 'σ' = false := by
  unfold IsLower
  decide +kernel

/-! ## Texts -/

/-- What lower-casing a text puts in place of its first character. -/
def lowerFirst (before : List Char) (c : Char) (rest : List Char) : List Char :=
  if c = 'Σ' then
    if casedFirst before && !casedFirst rest then ['ς'] else ['σ']
  else lowerChar c

theorem lowerAfter_cons (before : List Char) (c : Char) (rest : List Char) :
    lowerAfter before (c :: rest) = lowerFirst before c rest ++ lowerAfter (c :: before) rest := rfl

theorem mem_lowerFirst {before rest : List Char} {c d : Char} (h : d ∈ lowerFirst before c rest) :
    IsLower d ∧ (isBlank c = false → isBlank d = false) := by
  obtain ⟨hfinal, hmiddle, hfinal', hmiddle'⟩ := isLower_sigmas
  unfold lowerFirst at h
  split at h
  · split at h
    · rw [List.mem_singleton.1 h]
      exact ⟨hfinal, fun _ => hfinal'⟩
    · rw [List.mem_singleton.1 h]
      exact ⟨hmiddle, fun _ => hmiddle'⟩
  · exact mem_lowerChar h

theorem lowerFirst_ne_nil (before rest : List Char) (c : Char) : lowerFirst before c rest ≠ [] := by
  unfold lowerFirst lowerChar
  repeat' split
  all_goals exact List.cons_ne_nil _ _

theorem isLower_lowerAfter {before s : List Char} {d : Char} (h : d ∈ lowerAfter before s) :
    IsLower d := by
  induction s generalizing before with
  | nil => cases h
  | cons c rest ih =>
    rw [lowerAfter_cons] at h
    rcases List.mem_append.1 h with h | h
    · exact (mem_lowerFirst h).1
    · exact ih h

/-- A text of characters that stay as they are stays as it is. -/
theorem lowerAfter_of_isLower {before s : List Char} (h : ∀ c ∈ s, IsLower c) :
    lowerAfter before s = s := by
  induction s generalizing before with
  | nil => rfl
  | cons c rest ih =>
    have hc : lowerChar c = [c] := h c List.mem_cons_self
    have hsigma : c ≠ 'Σ' := by
      rintro rfl
      revert hc
      decide +kernel
    rw [lowerAfter_cons, lowerFirst, if_neg hsigma, hc,
      ih (fun d hd => h d (List.mem_cons_of_mem c hd))]
    rfl

theorem lowerAfter_eq_nil {before s : List Char} (h : lowerAfter before s = []) : s = [] := by
  cases s with
  | nil => rfl
  | cons c rest =>
    rw [lowerAfter_cons, List.append_eq_nil_iff] at h
    exact absurd h.1 (lowerFirst_ne_nil before rest c)

theorem isBlank_getLast?_lowerAfter {before s : List Char}
    (h : ∀ c, s.getLast? = some c → isBlank c = false) {d : Char}
    (hd : (lowerAfter before s).getLast? = some d) : isBlank d = false := by
  induction s generalizing before with
  | nil => cases hd
  | cons c rest ih =>
    rw [lowerAfter_cons, List.getLast?_append] at hd
    cases hrest : (lowerAfter (c :: before) rest).getLast? with
    | some e =>
      rw [hrest] at hd
      cases hd
      refine ih (fun e he => h e ?_) hrest
      rw [List.getLast?_cons, he]
      rfl
    | none =>
      rw [hrest] at hd
      obtain rfl := lowerAfter_eq_nil (List.getLast?_eq_none_iff.1 hrest)
      exact (mem_lowerFirst (List.mem_of_getLast? hd)).2 (h c rfl)

theorem isTrimmed_lowerAfter {before s : List Char} (h : IsTrimmed s) :
    IsTrimmed (lowerAfter before s) := by
  refine ⟨fun d hd => ?_, fun d hd => isBlank_getLast?_lowerAfter h.2 hd⟩
  cases s with
  | nil => cases hd
  | cons c rest =>
    rw [lowerAfter_cons] at hd
    cases hfirst : lowerFirst before c rest with
    | nil => exact absurd hfirst (lowerFirst_ne_nil before rest c)
    | cons e more =>
      rw [hfirst] at hd
      cases hd
      exact (mem_lowerFirst (hfirst ▸ List.mem_cons_self)).2 (h.1 c rfl)

end Theming.Text
