import Theming.Proofs.Sheet.PlainForm

set_option autoImplicit false

/-! # Plain form is a normal form

Cutting out a comment leaves a space, so that no comment starts where one was cut out
(`not_opens_stripComments`), and collapsing blanks brings no two characters together that did not
stand side by side before (`isInfix_normalizeBlanks_iff`). Collapsed text consists of lines of words
with single spaces between them (`Collapsed`), which is the text that collapsing leaves as it is
(`normalizeBlanks_eq_self_iff`). Together, the texts in plain form are the collapsed ones without
comments; the main result is `plainForm_normal`. -/

namespace Theming.Sheet

open Text (isBlank pieces words joinWith IsTrimmed)

variable {c d : Char} {s line : List Char}

/-! ## Comments -/

/-- The mark that starts a comment. -/
def opener : List Char := ['/', '*']

/-- Behind a comment that was cut out comes a space. -/
theorem head?_stripComments (s : List Char) :
    (stripComments s).head? = s.head? ∨ (stripComments s).head? = some ' ' := by
  fun_cases stripComments s with
  | case1 => exact Or.inl rfl
  | case2 rest => exact Or.inr rfl
  | case3 c rest _ => exact Or.inl rfl

/-- **No comment starts where one was cut out.** -/
theorem not_opens_stripComments (s : List Char) : ¬ opener <:+: stripComments s := by
  fun_induction stripComments s with
  | case1 => simp [opener]
  | case2 rest ih =>
    rw [opener, List.infix_cons_iff, not_or]
    exact ⟨by simp, ih⟩
  | case3 c rest hstart ih =>
    rw [opener, List.infix_cons_iff, not_or]
    refine ⟨fun hprefix => ?_, ih⟩
    obtain ⟨rfl, hstar⟩ := List.cons_prefix_cons.1 hprefix
    have hhead : (stripComments rest).head? = some '*' := by
      obtain ⟨more, hmore⟩ := hstar
      rw [← hmore]
      rfl
    rcases head?_stripComments rest with hsame | hspace
    · obtain ⟨more, rfl⟩ := List.head?_eq_some_iff.1 (hsame ▸ hhead)
      exact hstart more rfl rfl
    · rw [hspace] at hhead
      cases hhead

theorem stripComments_eq_self_iff : stripComments s = s ↔ ¬ opener <:+: s := by
  constructor
  · intro h
    rw [← h]
    exact not_opens_stripComments s
  · intro h
    induction s with
    | nil => exact stripComments_nil
    | cons c rest ih =>
      rw [opener, List.infix_cons_iff, not_or] at h
      rw [stripComments_cons, ih h.2]
      rintro rfl hstar
      obtain ⟨more, rfl⟩ := List.head?_eq_some_iff.1 hstar
      exact h.1 ⟨more, rfl⟩

/-- The text is cut at its first comment, and a space stands between what is before and after it. -/
theorem stripComments_eq (s : List Char) : stripComments s =
    match Text.cutAt? opener s with
    | some (before, after) => before ++ ' ' :: stripComments (afterComment after)
    | none => s := by
  fun_induction stripComments s with
  | case1 => rfl
  | case2 rest => rfl
  | case3 c rest hstart ih =>
    have hnone : Text.dropPrefix? opener (c :: rest) = none := by
      cases hdrop : Text.dropPrefix? opener (c :: rest) with
      | none => rfl
      | some after =>
        obtain ⟨rfl, rfl⟩ := List.cons.inj (Text.dropPrefix?_eq_some_iff.1 hdrop)
        exact absurd rfl (hstart after rfl)
    rw [ih, Text.cutAt?, hnone]
    cases Text.cutAt? opener rest with
    | none => rfl
    | some cut => rfl

/-! ## Characters side by side -/

theorem head?_afterText (hc : isBlank c = false) (s : List Char) :
    (afterText s).head? = some c ↔ s.head? = some c := by
  cases s with
  | nil => rfl
  | cons e rest =>
    cases he : isBlank e with
    | false => rw [afterText_cons he, List.head?_cons, List.head?_cons]
    | true =>
      have hnot : ∀ {f}, isBlank f = true → ¬ some f = some c := by
        rintro f hf ⟨rfl⟩
        rw [hf] at hc
        cases hc
      rw [List.head?_cons, iff_false_right (hnot he)]
      rcases afterText_blank he rest with ⟨hnil, -⟩ | ⟨f, hf, hcons⟩
      · rw [hnil]
        exact Option.some_ne_none c ∘ Eq.symm
      · rw [hcons]
        exact hnot (isBlank_of_isGap hf)

theorem isInfix_cons_blank (hc : isBlank c = false) {e : Char} (he : isBlank e = true)
    (s : List Char) : [c, d] <:+: e :: s ↔ [c, d] <:+: s := by
  rw [List.infix_cons_iff, or_iff_right]
  intro hprefix
  rw [(List.cons_prefix_cons.1 hprefix).1, he] at hc
  cases hc

/-- **Collapsing blanks brings no characters together**, and takes none apart. -/
theorem isInfix_normalizeBlanks_iff (hc : isBlank c = false) (hd : isBlank d = false) :
    [c, d] <:+: normalizeBlanks s ↔ [c, d] <:+: s := by
  induction s with
  | nil => rfl
  | cons e rest ih =>
    cases he : isBlank e with
    | true => rw [normalizeBlanks_cons_blank he, ih, isInfix_cons_blank hc he]
    | false =>
      have hbehind : [c, d] <:+: afterText rest ↔ [c, d] <:+: rest := by
        rw [afterText, ← ih]
        rcases spacer_cases rest with h | h | h
        · rw [h, List.nil_append]
        · rw [h, List.singleton_append, isInfix_cons_blank hc (by decide)]
        · rw [h, List.singleton_append, isInfix_cons_blank hc (by decide)]
      rw [normalizeBlanks_cons he, List.infix_cons_iff, List.infix_cons_iff, hbehind,
        List.cons_prefix_cons, List.cons_prefix_cons, List.singleton_prefix_iff_head?_eq_some,
        List.singleton_prefix_iff_head?_eq_some, head?_afterText hd]

/-! ## Collapsed text -/

/-- A line of words with single spaces between them. -/
structure Neat (line : List Char) : Prop where
  filled : ∃ c ∈ line, isBlank c = false
  trimmed : IsTrimmed line
  spaces : ∀ c ∈ line, isBlank c = true → c = ' '
  single : ¬ [' ', ' '] <:+: line

/-- A text of such lines. -/
def Collapsed (s : List Char) : Prop := s = [] ∨ ∀ line ∈ pieces (· == '\n') s, Neat line

theorem Neat.nil_notMem_pieces (h : Neat line) : [] ∉ pieces isBlank line := by
  intro hnil
  obtain ⟨word, others, hpieces⟩ := List.exists_cons_of_ne_nil (Text.pieces_ne_nil isBlank line)
  rw [hpieces] at hnil
  rcases List.mem_cons.1 hnil with rfl | hlater
  · rcases Text.head?_pieces_eq_nil (congrArg List.head? hpieces) with rfl | ⟨c, rest, rfl, hc⟩
    · obtain ⟨c, hmem, -⟩ := h.filled
      cases hmem
    · rw [h.trimmed.1 c rfl] at hc
      cases hc
  · rcases Text.nil_mem_tail_pieces (by rwa [hpieces]) with
      ⟨front, c, rfl, hc⟩ | ⟨front, c, d, rest, rfl, hc, hd⟩
    · rw [h.trimmed.2 c List.getLast?_concat] at hc
      cases hc
    · obtain rfl := h.spaces c (by simp) hc
      obtain rfl := h.spaces d (by simp) hd
      exact h.single ⟨front, rest, by simp⟩

/-- Every piece between the spaces of such a line is a word. -/
theorem neat_iff : Neat line ↔
    (∀ c ∈ line, isBlank c = true → c = ' ') ∧ [] ∉ pieces isBlank line := by
  refine ⟨fun h => ⟨h.spaces, h.nil_notMem_pieces⟩, fun ⟨hspaces, hnil⟩ => ?_⟩
  -- At a blank, the pieces of the line are those before it and those behind it.
  have hcut : ∀ {a b c}, line = a ++ c :: b → isBlank c = true →
      [] ∉ pieces isBlank a ∧ [] ∉ pieces isBlank b := by
    rintro a b c rfl hc
    rwa [Text.pieces_append isBlank hc, List.mem_append, not_or] at hnil
  refine ⟨?_, ⟨fun c hc => ?_, fun c hc => ?_⟩, hspaces, ?_⟩
  · by_contra hnone
    have hempty : ∀ piece ∈ pieces isBlank line, ∀ c ∈ piece, False :=
      Text.forall_mem_pieces_iff.2 fun c hc hword => hnone ⟨c, hc, hword⟩
    obtain ⟨word, hword⟩ := List.exists_mem_of_ne_nil _ (Text.pieces_ne_nil isBlank line)
    exact hnil (List.eq_nil_iff_forall_not_mem.2 (hempty word hword) ▸ hword)
  · obtain ⟨rest, rfl⟩ := List.head?_eq_some_iff.1 hc
    refine Bool.eq_false_iff.2 fun hblank => ?_
    exact (hcut (a := []) rfl hblank).1 List.mem_cons_self
  · obtain ⟨front, rfl⟩ := List.getLast?_eq_some_iff.1 hc
    refine Bool.eq_false_iff.2 fun hblank => ?_
    exact (hcut (b := []) rfl hblank).2 List.mem_cons_self
  · rintro ⟨front, rest, heq⟩
    have hbehind := (hcut (a := front) (c := ' ') (b := ' ' :: rest) (by simp [← heq]) (by decide)).2
    rw [pieces, if_pos (by decide)] at hbehind
    exact hbehind List.mem_cons_self

theorem neat_normalizeLine (h : normalizeLine s ≠ []) : Neat (normalizeLine s) := by
  have hwords : words s ≠ [] := fun hnil => h (by rw [normalizeLine, hnil]; rfl)
  rw [neat_iff, normalizeLine, Text.pieces_joinWith (by decide) hwords
    fun word hword => (Text.of_mem_words hword).2]
  refine ⟨fun c hc hblank => ?_, fun hnil => (Text.of_mem_words hnil).1 rfl⟩
  rcases Text.mem_joinWith hc with hspace | ⟨word, hword, hmem⟩
  · exact List.mem_singleton.1 hspace
  · rw [(Text.of_mem_words hword).2 c hmem] at hblank
    cases hblank

theorem normalizeLine_of_neat (h : Neat line) : normalizeLine line = line := by
  obtain ⟨hspaces, hnil⟩ := neat_iff.1 h
  have hwords : words line = pieces isBlank line := by
    refine List.filter_eq_self.2 fun piece hpiece => ?_
    simp only [Bool.not_eq_true', List.isEmpty_eq_false_iff]
    rintro rfl
    exact hnil hpiece
  rw [normalizeLine, hwords, Text.joinWith_pieces hspaces]

theorem neat_of_mem_keptLines (h : line ∈ keptLines s) : Neat line := by
  have hne := ne_nil_of_mem_keptLines h
  obtain ⟨piece, -, rfl⟩ := List.mem_map.1 (List.mem_filter.1 h).1
  exact neat_normalizeLine hne

theorem collapsed_normalizeBlanks (s : List Char) : Collapsed (normalizeBlanks s) := by
  rw [normalizeBlanks_eq]
  by_cases hkept : keptLines s = []
  · rw [hkept]
    exact Or.inl rfl
  · refine Or.inr ?_
    rw [Text.pieces_joinWith (by decide) hkept]
    · exact fun line => neat_of_mem_keptLines
    · intro line hline c hc
      refine Bool.eq_false_iff.2 fun hfeed => ?_
      obtain rfl := beq_iff_eq.1 hfeed
      exact absurd ((neat_of_mem_keptLines hline).spaces '\n' hc (by decide)) (by decide)

/-- **Collapsed text is the text that collapsing leaves as it is.** -/
theorem normalizeBlanks_eq_self_iff : normalizeBlanks s = s ↔ Collapsed s := by
  refine ⟨fun h => h ▸ collapsed_normalizeBlanks s, ?_⟩
  rintro (rfl | hlines)
  · rfl
  · have hself : (pieces (· == '\n') s).map normalizeLine = pieces (· == '\n') s := by
      rw [List.map_congr_left fun line hline => normalizeLine_of_neat (hlines line hline),
        List.map_id']
    have hkept : keptLines s = pieces (· == '\n') s := by
      rw [keptLines, hself, List.filter_eq_self]
      intro line hline
      obtain ⟨c, hc, -⟩ := (hlines line hline).filled
      simpa using List.ne_nil_of_mem hc
    rw [normalizeBlanks_eq, hkept, Text.joinWith_pieces fun c _ hc => beq_iff_eq.1 hc]

/-! ## Plain form -/

/-- **Plain form is a normal form**: comments are cut out one after the other, with a space in place
    of each, until none is left; blanks are collapsed, which neither makes nor breaks the start of a
    comment; the texts in plain form are the collapsed ones without comments, and each text has one
    of these as its plain form. -/
theorem plainForm_normal (template : String) :
    (stripComments template.toList =
        match Text.cutAt? opener template.toList with
        | some (before, after) => before ++ ' ' :: stripComments (afterComment after)
        | none => template.toList) ∧
      ¬ opener <:+: stripComments template.toList ∧
      Collapsed (normalizeBlanks template.toList) ∧
      (opener <:+: normalizeBlanks template.toList ↔ opener <:+: template.toList) ∧
      (plainForm template = template ↔
        ¬ opener <:+: template.toList ∧ Collapsed template.toList) ∧
      plainForm (plainForm template) = plainForm template := by
  have hsame : ∀ text : String, plainForm text = text ↔
      ¬ opener <:+: text.toList ∧ Collapsed text.toList := by
    intro text
    rw [← stripComments_eq_self_iff, ← normalizeBlanks_eq_self_iff, ← isPlain_iff, IsPlain,
      plainForm, ← String.toList_inj, String.toList_ofList]
  have hopener : ∀ s, opener <:+: normalizeBlanks s ↔ opener <:+: s := fun s =>
    isInfix_normalizeBlanks_iff (by decide) (by decide)
  refine ⟨stripComments_eq _, not_opens_stripComments _, collapsed_normalizeBlanks _, hopener _,
    hsame template, (hsame _).2 ?_⟩
  rw [plainForm, String.toList_ofList, hopener]
  exact ⟨not_opens_stripComments _, collapsed_normalizeBlanks _⟩

end Theming.Sheet
