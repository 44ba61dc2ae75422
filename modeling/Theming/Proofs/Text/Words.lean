import Theming.Text.Blank

set_option autoImplicit false

/-! # Words and lines

Texts are cut at line feeds and at blanks, and put together again with separators. Blanks at the end
of a line and lines without words leave no trace in the words. -/

namespace Theming.Text

/-! ## Pieces -/

theorem pieces_ne_nil (cut : Char → Bool) (s : List Char) : pieces cut s ≠ [] := by
  cases s with
  | nil => simp [pieces]
  | cons c rest =>
    rw [pieces]
    split
    · simp
    · split <;> simp

theorem pieces_append (cut : Char → Bool) {c : Char} (hc : cut c = true) (a b : List Char) :
    pieces cut (a ++ c :: b) = pieces cut a ++ pieces cut b := by
  induction a with
  | nil => simp [pieces, hc]
  | cons d rest ih =>
    rw [List.cons_append, pieces, pieces, ih]
    split
    · rfl
    · cases h : pieces cut rest with
      | nil => exact absurd h (pieces_ne_nil cut rest)
      | cons piece others => rfl

theorem pieces_of_not_mem (cut : Char → Bool) {s : List Char} (h : ∀ c ∈ s, cut c = false) :
    pieces cut s = [s] := by
  induction s with
  | nil => rfl
  | cons c rest ih =>
    rw [pieces, h c List.mem_cons_self, ih (fun d hd => h d (List.mem_cons_of_mem _ hd))]
    rfl

/-- The pieces hold the characters at which nothing is cut. -/
theorem forall_mem_pieces_iff {cut : Char → Bool} {P : Char → Prop} {s : List Char} :
    (∀ piece ∈ pieces cut s, ∀ c ∈ piece, P c) ↔ ∀ c ∈ s, cut c = false → P c := by
  induction s with
  | nil => simp [pieces]
  | cons c rest ih =>
    obtain ⟨piece, others, hpieces⟩ := List.exists_cons_of_ne_nil (pieces_ne_nil cut rest)
    rw [hpieces, List.forall_mem_cons] at ih
    rw [List.forall_mem_cons, ← ih, pieces, hpieces]
    cases hc : cut c with
    | true => simp
    | false => simp [and_assoc]

/-- The first piece is empty if the text starts with a cut, or is empty. -/
theorem head?_pieces_eq_nil {cut : Char → Bool} {s : List Char}
    (h : (pieces cut s).head? = some []) : s = [] ∨ ∃ c rest, s = c :: rest ∧ cut c = true := by
  cases s with
  | nil => exact Or.inl rfl
  | cons c rest =>
    refine Or.inr ⟨c, rest, rfl, ?_⟩
    rw [pieces] at h
    split at h
    · assumption
    · split at h <;> simp at h

/-- A later piece is empty if the text ends with a cut, or if two cuts stand side by side. -/
theorem nil_mem_tail_pieces {cut : Char → Bool} {s : List Char} (h : [] ∈ (pieces cut s).tail) :
    (∃ front c, s = front ++ [c] ∧ cut c = true) ∨
      ∃ front c d rest, s = front ++ c :: d :: rest ∧ cut c = true ∧ cut d = true := by
  induction s with
  | nil => simp [pieces] at h
  | cons c rest ih =>
    obtain ⟨piece, others, hpieces⟩ := List.exists_cons_of_ne_nil (pieces_ne_nil cut rest)
    have hlater : [] ∈ others → (∃ front e, c :: rest = front ++ [e] ∧ cut e = true) ∨
        ∃ front d e more, c :: rest = front ++ d :: e :: more ∧ cut d = true ∧ cut e = true := by
      intro hmem
      rcases ih (by rwa [hpieces]) with ⟨front, e, rfl, he⟩ | ⟨front, d, e, more, rfl, hd, he⟩
      · exact Or.inl ⟨c :: front, e, rfl, he⟩
      · exact Or.inr ⟨c :: front, d, e, more, rfl, hd, he⟩
    rw [pieces, hpieces] at h
    cases hc : cut c with
    | false => exact hlater (by simpa [hc] using h)
    | true =>
      rw [if_pos hc, List.tail_cons] at h
      rcases List.mem_cons.1 h with rfl | hmem
      · rcases head?_pieces_eq_nil (by rw [hpieces]; rfl) with rfl | ⟨d, more, rfl, hd⟩
        · exact Or.inl ⟨[], c, rfl, hc⟩
        · exact Or.inr ⟨[], c, d, more, rfl, hc, hd⟩
      · exact hlater hmem

/-! ## Words -/

variable {c d : Char}

theorem of_mem_words {s word : List Char} (h : word ∈ words s) :
    word ≠ [] ∧ ∀ c ∈ word, isBlank c = false := by
  obtain ⟨hpiece, hne⟩ := List.mem_filter.1 h
  have hinside : ∀ piece ∈ pieces isBlank s, ∀ c ∈ piece, isBlank c = false :=
    forall_mem_pieces_iff.2 fun _ _ hc => hc
  exact ⟨by simpa using hne, hinside word hpiece⟩

theorem words_cons_blank (h : isBlank c = true) (s : List Char) : words (c :: s) = words s := by
  rw [words, pieces, if_pos h]
  rfl

theorem words_append_blank (h : isBlank c = true) (s : List Char) :
    words (s ++ [c]) = words s := by
  rw [words, pieces_append _ h, List.filter_append]
  exact List.append_nil _

/-- In front of a blank, a character is the end of a word. -/
theorem words_cons_before_blank (hc : isBlank c = false) (hd : isBlank d = true) (s : List Char) :
    words (c :: d :: s) = [c] :: words s := by
  rw [words, pieces, hc, pieces, if_pos hd]
  rfl

/-- In front of any other character, it goes on with the same word. -/
theorem words_cons_inside (hc : isBlank c = false) (hd : isBlank d = false) (s : List Char) :
    ∃ word others, words (d :: s) = (d :: word) :: others ∧
      words (c :: d :: s) = (c :: d :: word) :: others := by
  obtain ⟨word, others, hpieces⟩ := List.exists_cons_of_ne_nil (pieces_ne_nil isBlank s)
  have hself : pieces isBlank (d :: s) = (d :: word) :: others := by
    rw [pieces, hd, hpieces]
    rfl
  refine ⟨word, others.filter (fun piece => !piece.isEmpty), ?_, ?_⟩
  · rw [words, hself]
    rfl
  · rw [words, pieces, hc, hself]
    rfl

theorem words_eq_nil_iff {s : List Char} : words s = [] ↔ ∀ c ∈ s, isBlank c = true := by
  induction s with
  | nil => simp [words, pieces]
  | cons c rest ih =>
    rw [List.forall_mem_cons]
    cases hc : isBlank c with
    | true => rw [words_cons_blank hc, ih]; simp
    | false =>
      have hne : words (c :: rest) ≠ [] := by
        cases rest with
        | nil => simp [words, pieces, hc]
        | cons d more =>
          cases hd : isBlank d with
          | true => simp [words_cons_before_blank hc hd]
          | false =>
            obtain ⟨word, others, -, hwords⟩ := words_cons_inside hc hd more
            simp [hwords]
      simp [hne]

/-- The carriage return at the end of a line is in no word. -/
theorem words_dropReturn (line : List Char) : words (dropReturn line) = words line := by
  rw [dropReturn]
  split
  · next h =>
    obtain ⟨front, rfl⟩ := List.getLast?_eq_some_iff.1 h
    rw [List.dropLast_concat, words_append_blank (by decide)]
  · rfl

/-! ## Joining -/

theorem joinWith_cons {sep piece : List Char} {others : List (List Char)} (h : others ≠ []) :
    joinWith sep (piece :: others) = piece ++ (sep ++ joinWith sep others) := by
  obtain ⟨next, more, rfl⟩ := List.exists_cons_of_ne_nil h
  rw [joinWith, List.append_assoc]
  exact List.cons_ne_nil _ _

theorem joinWith_append_cons (sep a b : List Char) (others : List (List Char)) :
    joinWith sep ((a ++ b) :: others) = a ++ joinWith sep (b :: others) := by
  cases others with
  | nil => rfl
  | cons next more =>
    rw [joinWith_cons (List.cons_ne_nil _ _), joinWith_cons (List.cons_ne_nil _ _),
      List.append_assoc]

theorem joinWith_append {sep : List Char} {a b : List (List Char)} (ha : a ≠ []) (hb : b ≠ []) :
    joinWith sep (a ++ b) = joinWith sep a ++ (sep ++ joinWith sep b) := by
  induction a with
  | nil => exact absurd rfl ha
  | cons piece others ih =>
    cases others with
    | nil => exact joinWith_cons hb
    | cons next more =>
      rw [List.cons_append, joinWith_cons (by simp), ih (by simp),
        joinWith_cons (List.cons_ne_nil _ _), List.append_assoc, List.append_assoc]

/-- What is joined is empty only if all pieces are. -/
theorem joinWith_eq_nil_iff {sep : List Char} {pieces : List (List Char)}
    (h : ∀ piece ∈ pieces, piece ≠ []) : joinWith sep pieces = [] ↔ pieces = [] := by
  cases pieces with
  | nil => simp [joinWith]
  | cons piece others =>
    have hne := h piece List.mem_cons_self
    cases others with
    | nil => simpa [joinWith] using hne
    | cons next more => simp [joinWith_cons (List.cons_ne_nil _ _), hne]

theorem mem_joinWith {sep : List Char} {pieces : List (List Char)} {c : Char}
    (h : c ∈ joinWith sep pieces) : c ∈ sep ∨ ∃ piece ∈ pieces, c ∈ piece := by
  induction pieces with
  | nil => cases h
  | cons piece others ih =>
    cases others with
    | nil => exact Or.inr ⟨piece, List.mem_cons_self, h⟩
    | cons next more =>
      rw [joinWith_cons (List.cons_ne_nil _ _), List.mem_append, List.mem_append] at h
      rcases h with hpiece | hsep | hrest
      · exact Or.inr ⟨piece, List.mem_cons_self, hpiece⟩
      · exact Or.inl hsep
      · exact (ih hrest).imp_right fun ⟨p, hp, hc⟩ => ⟨p, List.mem_cons_of_mem _ hp, hc⟩

/-- Pieces without cuts are found again between cuts. -/
theorem pieces_joinWith {cut : Char → Bool} {sep : Char} (hsep : cut sep = true)
    {parts : List (List Char)} (hne : parts ≠ []) (h : ∀ part ∈ parts, ∀ c ∈ part, cut c = false) :
    pieces cut (joinWith [sep] parts) = parts := by
  induction parts with
  | nil => exact absurd rfl hne
  | cons part others ih =>
    obtain ⟨hpart, hothers⟩ := List.forall_mem_cons.1 h
    cases others with
    | nil => exact pieces_of_not_mem cut hpart
    | cons next more =>
      rw [joinWith_cons (List.cons_ne_nil _ _), List.singleton_append, pieces_append cut hsep,
        pieces_of_not_mem cut hpart, ih (List.cons_ne_nil _ _) hothers, List.singleton_append]

/-- A text with one kind of cut is its pieces, joined. -/
theorem joinWith_pieces {cut : Char → Bool} {sep : Char} {s : List Char}
    (h : ∀ c ∈ s, cut c = true → c = sep) : joinWith [sep] (pieces cut s) = s := by
  induction s with
  | nil => rfl
  | cons c rest ih =>
    obtain ⟨hself, hrest⟩ := List.forall_mem_cons.1 h
    obtain ⟨piece, others, hpieces⟩ := List.exists_cons_of_ne_nil (pieces_ne_nil cut rest)
    have hjoin := ih hrest
    rw [pieces, hpieces] at *
    cases hc : cut c with
    | true =>
      rw [if_pos rfl, joinWith_cons (List.cons_ne_nil _ _), hjoin, hself hc]
      rfl
    | false =>
      rw [if_neg Bool.false_ne_true]
      exact (joinWith_append_cons [sep] [c] piece others).trans (congrArg (c :: ·) hjoin)

end Theming.Text
