import Theming.Text.Blank

set_option autoImplicit false

/-! # Trimmed texts

A text is trimmed if no blank stands at either end of it. Trimming gives such a text, leaves it as
it is, and finds it again between blanks. -/

namespace Theming.Text

/-- No blank stands at either end. -/
def IsTrimmed (s : List Char) : Prop :=
  (∀ c, s.head? = some c → isBlank c = false) ∧ ∀ c, s.getLast? = some c → isBlank c = false

theorem trimEnd_eq (s : List Char) : trimEnd s = (s.reverse.dropWhile isBlank).reverse := by
  induction s with
  | nil => rfl
  | cons c rest ih =>
    rw [trimEnd, ih, List.reverse_cons, List.dropWhile_append]
    cases hrest : rest.reverse.dropWhile isBlank with
    | nil => cases hc : isBlank c <;> simp [hc]
    | cons d kept => simp

theorem trimEnd_append_space (s : List Char) : trimEnd (s ++ [' ']) = trimEnd s := by
  simp [trimEnd_eq, isBlank_space]

theorem trimEnd_prefix (s : List Char) : trimEnd s <+: s := by
  rw [trimEnd_eq, ← List.reverse_suffix, List.reverse_reverse]
  exact List.dropWhile_suffix isBlank

theorem isInfix_trim (s : List Char) : trim s <:+: s := by
  have hstop : trim s <+: trimStart s := trimEnd_prefix (trimStart s)
  have hstart : trimStart s <:+ s := List.dropWhile_suffix isBlank
  exact hstop.isInfix.trans hstart.isInfix

theorem trimEnd_of_getLast? {s : List Char} (h : ∀ c, s.getLast? = some c → isBlank c = false) :
    trimEnd s = s := by
  rw [trimEnd_eq]
  cases hs : s.reverse with
  | nil => rw [List.reverse_eq_nil_iff.1 hs]; rfl
  | cons c rest =>
    have hc : isBlank c = false := h c (by rw [← List.head?_reverse, hs]; rfl)
    rw [List.dropWhile_cons_of_neg (by simp [hc]), ← hs, List.reverse_reverse]

theorem isBlank_of_head?_dropWhile {s : List Char} {c : Char}
    (h : (s.dropWhile isBlank).head? = some c) : isBlank c = false := by
  have hfirst := List.head?_dropWhile_not isBlank s
  rwa [h] at hfirst

theorem isTrimmed_trim (s : List Char) : IsTrimmed (trim s) := by
  constructor
  · intro c hc
    obtain ⟨tail, htail⟩ := trimEnd_prefix (trimStart s)
    apply isBlank_of_head?_dropWhile (s := s)
    show (trimStart s).head? = some c
    rw [← htail, List.head?_append]
    show (trim s).head?.or tail.head? = some c
    rw [hc]
    rfl
  · intro c hc
    rw [trim, trimEnd_eq, ← List.head?_reverse, List.reverse_reverse] at hc
    exact isBlank_of_head?_dropWhile hc

theorem trim_of_isTrimmed {s : List Char} (h : IsTrimmed s) : trim s = s := by
  have hstart : trimStart s = s := by
    cases s with
    | nil => rfl
    | cons c rest => exact List.dropWhile_cons_of_neg (by simp [h.1 c rfl])
  rw [trim, hstart, trimEnd_of_getLast? h.2]

theorem trimmed_trimmed (s : String) : trimmed (trimmed s) = trimmed s := by
  rw [trimmed, trimmed, String.toList_ofList, trim_of_isTrimmed (isTrimmed_trim s.toList)]

/-- A trimmed text is found again between two spaces. -/
theorem trim_between_spaces {s : List Char} (h : IsTrimmed s) : trim (' ' :: (s ++ [' '])) = s := by
  have hstart : trimStart (' ' :: (s ++ [' '])) = trimStart (s ++ [' ']) :=
    List.dropWhile_cons_of_pos isBlank_space
  rw [trim, hstart]
  cases s with
  | nil => rfl
  | cons c rest =>
    have hc : isBlank c = false := h.1 c rfl
    rw [trimStart, List.cons_append, List.dropWhile_cons_of_neg (by simp [hc]), ← List.cons_append,
      trimEnd_append_space, trimEnd_of_getLast? h.2]

/-! ## The blanks that are dropped -/

theorem trimStart_of_blank {s : List Char} (h : ∀ c ∈ s, isBlank c = true) : trimStart s = [] := by
  induction s with
  | nil => rfl
  | cons c rest ih =>
    rw [trimStart, List.dropWhile_cons_of_pos (h c List.mem_cons_self)]
    exact ih fun d hd => h d (List.mem_cons_of_mem c hd)

theorem exists_blank_trimStart (s : List Char) :
    ∃ blanks, s = blanks ++ trimStart s ∧ ∀ c ∈ blanks, isBlank c = true :=
  ⟨s.takeWhile isBlank, List.takeWhile_append_dropWhile.symm,
    List.all_eq_true.1 List.all_takeWhile⟩

theorem exists_trimEnd_blank (s : List Char) :
    ∃ blanks, s = trimEnd s ++ blanks ∧ ∀ c ∈ blanks, isBlank c = true := by
  obtain ⟨blanks, hsplit, hblank⟩ := exists_blank_trimStart s.reverse
  refine ⟨blanks.reverse, ?_, fun c hc => hblank c (List.mem_reverse.1 hc)⟩
  rw [trimEnd_eq, ← List.reverse_append]
  exact List.reverse_eq_iff.1 hsplit

/-- Trimming drops blanks only. -/
theorem mem_trim {s : List Char} {c : Char} (hc : c ∈ s) (hblank : isBlank c = false) :
    c ∈ trim s := by
  obtain ⟨front, hfront, hblanks⟩ := exists_blank_trimStart s
  obtain ⟨back, hback, hblanks'⟩ := exists_trimEnd_blank (trimStart s)
  rw [hfront, hback, List.mem_append, List.mem_append] at hc
  rcases hc with hc | hc | hc
  · rw [hblanks c hc] at hblank
    cases hblank
  · exact hc
  · rw [hblanks' c hc] at hblank
    cases hblank

/-! ## Joined texts -/

theorem isBlank_head?_append {s t : List Char} (hs : IsTrimmed s)
    (ht : ∀ c, t.head? = some c → isBlank c = false) :
    ∀ c, (s ++ t).head? = some c → isBlank c = false := by
  cases s with
  | nil => exact ht
  | cons d rest => exact hs.1

/-- Blanks in front of a text that starts with none are those of what stands before it. -/
theorem trimStart_append {s t : List Char} (h : ∀ c, t.head? = some c → isBlank c = false) :
    trimStart (s ++ t) = trimStart s ++ t := by
  have ht : t.dropWhile isBlank = t := by
    cases t with
    | nil => rfl
    | cons c rest => exact List.dropWhile_cons_of_neg (by simp [h c rfl])
  rw [trimStart, List.dropWhile_append, trimStart]
  split
  · next hempty => rw [List.isEmpty_iff.1 hempty, ht, List.nil_append]
  · rfl

/-- A trimmed text is found again behind blanks. -/
theorem trim_append_of_blank {s t : List Char} (hs : ∀ c ∈ s, isBlank c = true)
    (ht : IsTrimmed t) : trim (s ++ t) = t := by
  rw [trim, trimStart_append ht.1, trimStart_of_blank hs, List.nil_append,
    trimEnd_of_getLast? ht.2]

/-- Blanks at the end of a joined text are those of its second part, unless that is blank and the
    first part ends with one. -/
theorem trimEnd_append {s t : List Char}
    (h : (∃ c ∈ t, isBlank c = false) ∨ ∀ c, s.getLast? = some c → isBlank c = false) :
    trimEnd (s ++ t) = s ++ trimEnd t := by
  rw [trimEnd_eq, trimEnd_eq, List.reverse_append, List.dropWhile_append]
  split
  · next hempty =>
    have hblank : ∀ c ∈ t, isBlank c = true := by
      intro c hc
      have hsplit := @List.takeWhile_append_dropWhile _ isBlank t.reverse
      rw [List.isEmpty_iff.1 hempty, List.append_nil] at hsplit
      rw [← List.mem_reverse, ← hsplit] at hc
      exact List.all_eq_true.1 List.all_takeWhile c hc
    have hlast : ∀ c, s.getLast? = some c → isBlank c = false := by
      rcases h with ⟨c, hc, hnot⟩ | hlast
      · rw [hblank c hc] at hnot
        cases hnot
      · exact hlast
    rw [List.isEmpty_iff.1 hempty, ← trimEnd_eq, trimEnd_of_getLast? hlast, List.reverse_nil,
      List.append_nil]
  · rw [List.reverse_append, List.reverse_reverse]

end Theming.Text
