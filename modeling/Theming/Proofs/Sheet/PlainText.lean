import Theming.Proofs.Text.Trimming
import Theming.Proofs.Text.Words
import Theming.Sheet.Comment

set_option autoImplicit false

/-! # Plain texts

Plain form is reached in two steps, and both can be followed from left to right. Comments are cut
out where they start (`stripComments_cons`). Blanks are dropped in front, and behind a character
that is no blank they become one spacer, if anything follows them (`normalizeBlanks_cons`).

A text that is in plain form already stays in one piece wherever it stands
(`stripComments_append`, `normalizeBlanks_append`). -/

namespace Theming.Sheet

open Text (isBlank pieces words joinWith)

variable {c : Char} {s x : List Char}

/-! ## Lines with words -/

theorem normalizeLine_eq_nil_iff : normalizeLine s = [] ↔ ∀ c ∈ s, isBlank c = true := by
  rw [normalizeLine, Text.joinWith_eq_nil_iff, Text.words_eq_nil_iff]
  intro word hword
  simpa using (List.mem_filter.1 hword).2

theorem normalizeLine_cons_blank (hc : isBlank c = true) (s : List Char) :
    normalizeLine (c :: s) = normalizeLine s := by
  rw [normalizeLine, Text.words_cons_blank hc, normalizeLine]

/-- The lines that are kept. -/
def keptLines (s : List Char) : List (List Char) :=
  ((pieces (· == '\n') s).map normalizeLine).filter (fun line => !line.isEmpty)

theorem ne_nil_of_mem_keptLines {line : List Char} (h : line ∈ keptLines s) : line ≠ [] := by
  simpa using (List.mem_filter.1 h).2

theorem normalizeBlanks_eq (s : List Char) :
    normalizeBlanks s = joinWith ['\n'] (keptLines s) := by
  have hlines : ∀ lines, ((Text.closedLines lines).map normalizeLine).filter
      (fun line => !line.isEmpty) =
        (lines.map normalizeLine).filter (fun line => !line.isEmpty) := by
    intro lines
    fun_induction Text.closedLines lines with
    | case1 => rfl
    | case2 last hempty =>
      rw [List.isEmpty_iff.1 hempty]
      rfl
    | case3 last hempty => rfl
    | case4 line others hne ih =>
      have hreturn : normalizeLine (Text.dropReturn line) = normalizeLine line := by
        rw [normalizeLine, Text.words_dropReturn, normalizeLine]
      rw [List.map_cons, List.map_cons, List.filter_cons, List.filter_cons, ih, hreturn]
  rw [normalizeBlanks, Text.lines, hlines, keptLines]

theorem normalizeBlanks_eq_nil_iff : normalizeBlanks s = [] ↔ ∀ c ∈ s, isBlank c = true := by
  have hkept : keptLines s = [] ↔
      ∀ piece ∈ pieces (· == '\n') s, ∀ c ∈ piece, isBlank c = true := by
    rw [keptLines, List.filter_eq_nil_iff, List.forall_mem_map]
    refine forall₂_congr fun piece _ => ?_
    rw [← normalizeLine_eq_nil_iff]
    simp
  rw [normalizeBlanks_eq, Text.joinWith_eq_nil_iff (fun _ => ne_nil_of_mem_keptLines), hkept,
    Text.forall_mem_pieces_iff]
  refine forall₂_congr fun c _ => ⟨fun h => ?_, fun h _ => h⟩
  by_cases hline : c = '\n'
  · rw [hline]
    decide
  · exact h (by simpa using hline)

/-- Two texts on lines of their own; an empty one gets no line. -/
def onLines (a b : List Char) : List Char :=
  if a = [] then b else if b = [] then a else a ++ '\n' :: b

theorem normalizeBlanks_of_line (h : '\n' ∉ s) : normalizeBlanks s = normalizeLine s := by
  have hpieces : pieces (· == '\n') s = [s] := by
    refine Text.pieces_of_not_mem _ fun c hc => ?_
    simp only [beq_eq_false_iff_ne]
    exact fun heq => h (heq ▸ hc)
  rw [normalizeBlanks_eq, keptLines, hpieces, List.map_singleton]
  cases hline : normalizeLine s <;> rfl

theorem normalizeBlanks_lines (a b : List Char) :
    normalizeBlanks (a ++ '\n' :: b) = onLines (normalizeBlanks a) (normalizeBlanks b) := by
  have hkept : keptLines (a ++ '\n' :: b) = keptLines a ++ keptLines b := by
    rw [keptLines, Text.pieces_append _ (by decide), List.map_append, List.filter_append]
    rfl
  have hnil : ∀ s, normalizeBlanks s = [] ↔ keptLines s = [] := by
    intro s
    rw [normalizeBlanks_eq, Text.joinWith_eq_nil_iff (fun _ => ne_nil_of_mem_keptLines)]
  rw [onLines, normalizeBlanks_eq, hkept]
  by_cases ha : keptLines a = []
  · rw [if_pos ((hnil a).2 ha), ha, List.nil_append, normalizeBlanks_eq]
  · rw [if_neg (mt (hnil a).1 ha)]
    by_cases hb : keptLines b = []
    · rw [if_pos ((hnil b).2 hb), hb, List.append_nil, normalizeBlanks_eq]
    · rw [if_neg (mt (hnil b).1 hb), Text.joinWith_append ha hb, normalizeBlanks_eq,
        normalizeBlanks_eq]
      rfl

/-! ## Separators -/

/-- What the blanks in front of a text become behind other text: one spacer, or nothing at the
    end. -/
def spacer (s : List Char) : List Char :=
  if s.all isBlank then []
  else if s.takeWhile isBlank = [] then []
  else if '\n' ∈ s.takeWhile isBlank then ['\n']
  else [' ']

theorem spacer_of_blanks (h : ∀ c ∈ s, isBlank c = true) : spacer s = [] := by
  rw [spacer, if_pos (List.all_eq_true.2 h)]

theorem spacer_of_not_blank (hc : isBlank c = false) (s : List Char) :
    spacer (c :: s) = [] := by
  simp [spacer, hc]

/-- The spacer is seen before the text behind it. -/
theorem spacer_append (h : ¬ ∀ c ∈ s, isBlank c = true) (tail : List Char) :
    spacer (s ++ tail) = spacer s := by
  have htake : (s ++ tail).takeWhile isBlank = s.takeWhile isBlank := by
    rw [List.takeWhile_append, if_neg]
    intro hlength
    have hsame : s.takeWhile isBlank = s := (List.takeWhile_prefix isBlank).eq_of_length hlength
    exact h (List.all_eq_true.1 (hsame ▸ List.all_takeWhile))
  have hall : s.all isBlank = false := by simpa using h
  rw [spacer, spacer, htake, List.all_append, hall, Bool.false_and]

/-- A line feed among the blanks is kept. -/
theorem spacer_lines {a b : List Char} (ha : ∀ c ∈ a, isBlank c = true)
    (hb : ¬ ∀ c ∈ b, isBlank c = true) : spacer (a ++ '\n' :: b) = ['\n'] := by
  have htake : (a ++ '\n' :: b).takeWhile isBlank = a ++ '\n' :: b.takeWhile isBlank := by
    rw [List.takeWhile_append_of_pos ha, List.takeWhile_cons_of_pos (by decide)]
  have hall : (a ++ '\n' :: b).all isBlank = false := by
    rw [List.all_append, List.all_cons, show b.all isBlank = false by simpa using hb,
      Bool.and_false, Bool.and_false]
  rw [spacer, hall, htake]
  simp

theorem spacer_cases (s : List Char) :
    spacer s = [] ∨ spacer s = [' '] ∨ spacer s = ['\n'] := by
  rw [spacer]
  repeat' split
  all_goals simp

/-! ## Blanks from left to right -/

/-- What a text comes to behind a character that is no blank. -/
def afterText (s : List Char) : List Char := spacer s ++ normalizeBlanks s

theorem normalizeBlanks_cons_blank (hc : isBlank c = true) (s : List Char) :
    normalizeBlanks (c :: s) = normalizeBlanks s := by
  by_cases hline : c = '\n'
  · rw [hline]
    exact normalizeBlanks_lines [] s
  · obtain ⟨piece, others, hpieces⟩ := List.exists_cons_of_ne_nil
      (Text.pieces_ne_nil (· == '\n') s)
    have hself : pieces (· == '\n') (c :: s) = (c :: piece) :: others := by
      rw [pieces, if_neg (by simpa using hline), hpieces]
    rw [normalizeBlanks_eq, normalizeBlanks_eq, keptLines, keptLines, hself, hpieces,
      List.map_cons, List.map_cons, normalizeLine_cons_blank hc]

theorem normalizeLine_cons (hc : isBlank c = false) (hline : '\n' ∉ s) :
    normalizeLine (c :: s) = c :: (spacer s ++ normalizeLine s) := by
  cases s with
  | nil => simp [normalizeLine, words, pieces, hc, spacer, joinWith]
  | cons d rest =>
    cases hd : isBlank d with
    | false =>
      obtain ⟨word, others, hself, hmore⟩ := Text.words_cons_inside hc hd rest
      rw [spacer_of_not_blank hd, normalizeLine, hmore, normalizeLine, hself]
      exact Text.joinWith_append_cons [' '] [c] (d :: word) others
    | true =>
      rw [normalizeLine_cons_blank hd, normalizeLine, Text.words_cons_before_blank hc hd]
      by_cases hrest : ∀ e ∈ rest, isBlank e = true
      · rw [spacer_of_blanks (List.forall_mem_cons.2 ⟨hd, hrest⟩),
          normalizeLine_eq_nil_iff.2 hrest, Text.words_eq_nil_iff.2 hrest]
        rfl
      · have hspace : spacer (d :: rest) = [' '] := by
          have hall : rest.all isBlank = false := by simpa using hrest
          have hnot : '\n' ∉ (d :: rest).takeWhile isBlank := fun hmem =>
            hline ((List.takeWhile_prefix isBlank).subset hmem)
          rw [spacer, List.all_cons, hall, Bool.and_false, if_neg hnot]
          simp [hd]
        rw [hspace, Text.joinWith_cons (mt Text.words_eq_nil_iff.1 hrest), normalizeLine]
        rfl

/-- **Blanks behind a character become one spacer**, if anything follows them. -/
theorem normalizeBlanks_cons (hc : isBlank c = false) (s : List Char) :
    normalizeBlanks (c :: s) = c :: afterText s := by
  have hchar : c ≠ '\n' := by
    rintro rfl
    exact absurd hc (by decide)
  by_cases hmem : '\n' ∈ s
  · obtain ⟨a, b, rfl, hline⟩ := List.eq_append_cons_of_mem hmem
    have hself : normalizeBlanks (c :: a) = c :: (spacer a ++ normalizeBlanks a) := by
      rw [normalizeBlanks_of_line (by simpa [hchar.symm] using hline),
        normalizeBlanks_of_line hline, normalizeLine_cons hc hline]
    rw [afterText, ← List.cons_append, normalizeBlanks_lines, normalizeBlanks_lines, hself]
    by_cases ha : ∀ d ∈ a, isBlank d = true
    · rw [spacer_of_blanks ha, normalizeBlanks_eq_nil_iff.2 ha, List.nil_append]
      by_cases hb : ∀ d ∈ b, isBlank d = true
      · have hall : ∀ d ∈ a ++ '\n' :: b, isBlank d = true :=
          List.forall_mem_append.2 ⟨ha, List.forall_mem_cons.2 ⟨by decide, hb⟩⟩
        rw [spacer_of_blanks hall, normalizeBlanks_eq_nil_iff.2 hb]
        rfl
      · rw [spacer_lines ha hb, onLines, if_neg (List.cons_ne_nil _ _),
          if_neg (mt normalizeBlanks_eq_nil_iff.1 hb)]
        rfl
    · rw [spacer_append ha, onLines, onLines, if_neg (List.cons_ne_nil _ _),
        if_neg (mt normalizeBlanks_eq_nil_iff.1 ha)]
      split
      · rfl
      · rw [List.cons_append, List.append_assoc]
  · rw [normalizeBlanks_of_line (by simpa [hchar.symm] using hmem), normalizeLine_cons hc hmem,
      afterText, normalizeBlanks_of_line hmem]

theorem afterText_cons (hc : isBlank c = false) (s : List Char) :
    afterText (c :: s) = c :: afterText s := by
  rw [afterText, spacer_of_not_blank hc, normalizeBlanks_cons hc, List.nil_append]

theorem length_normalizeBlanks_le (s : List Char) :
    (normalizeBlanks s).length ≤ s.length ∧ (afterText s).length ≤ s.length := by
  induction s with
  | nil => exact ⟨Nat.le_refl 0, Nat.le_refl 0⟩
  | cons c rest ih =>
    cases hc : isBlank c with
    | false =>
      rw [normalizeBlanks_cons hc, afterText_cons hc]
      exact ⟨Nat.succ_le_succ ih.2, Nat.succ_le_succ ih.2⟩
    | true =>
      have hspacer : (spacer (c :: rest)).length ≤ 1 := by
        rcases spacer_cases (c :: rest) with h | h | h <;> simp [h]
      rw [afterText, normalizeBlanks_cons_blank hc, List.length_append, List.length_cons]
      omega

/-- What is left neither starts nor ends with a blank. -/
theorem isTrimmed_normalizeBlanks (s : List Char) : Text.IsTrimmed (normalizeBlanks s) := by
  induction s with
  | nil => constructor <;> exact fun c hc => by cases hc
  | cons c rest ih =>
    cases hc : isBlank c with
    | true =>
      rw [normalizeBlanks_cons_blank hc]
      exact ih
    | false =>
      rw [normalizeBlanks_cons hc]
      refine ⟨fun d hd => (Option.some.inj hd) ▸ hc, fun d hd => ?_⟩
      by_cases hrest : ∀ e ∈ rest, isBlank e = true
      · rw [afterText, spacer_of_blanks hrest, normalizeBlanks_eq_nil_iff.2 hrest] at hd
        exact (Option.some.inj hd) ▸ hc
      · refine ih.2 d ?_
        have hlast := List.getLast?_eq_some_getLast (mt normalizeBlanks_eq_nil_iff.1 hrest)
        rw [afterText, ← List.cons_append, List.getLast?_append, hlast] at hd
        rw [hlast]
        exact hd

/-- A text that ends with no blank is normalized on its own. -/
theorem normalizeBlanks_append (hlast : ∃ c, x.getLast? = some c ∧ isBlank c = false)
    (s : List Char) : normalizeBlanks (x ++ s) = normalizeBlanks x ++ afterText s := by
  induction x with
  | nil =>
    obtain ⟨c, hc, -⟩ := hlast
    cases hc
  | cons c rest ih =>
    cases rest with
    | nil =>
      obtain ⟨d, hd, hnot⟩ := hlast
      obtain rfl : c = d := Option.some.inj hd
      rw [List.singleton_append, normalizeBlanks_cons hnot, normalizeBlanks_cons hnot]
      rfl
    | cons d more =>
      rw [List.getLast?_cons_cons] at hlast
      rw [List.cons_append]
      cases hc : isBlank c with
      | true =>
        rw [normalizeBlanks_cons_blank hc, normalizeBlanks_cons_blank hc, ih hlast]
      | false =>
        have hword : ¬ ∀ e ∈ d :: more, isBlank e = true := by
          obtain ⟨e, he, hnot⟩ := hlast
          intro hall
          rw [hall e (List.mem_of_getLast? he)] at hnot
          cases hnot
        have hrest : afterText (d :: more ++ s) = afterText (d :: more) ++ afterText s := by
          rw [afterText, spacer_append hword, ih hlast, ← List.append_assoc]
          rfl
        rw [normalizeBlanks_cons hc, normalizeBlanks_cons hc, hrest, List.cons_append]

/-! ## Comments -/

theorem stripComments_nil : stripComments [] = [] := by rw [stripComments]

/-- Where no comment starts, a character is kept. -/
theorem stripComments_cons (h : c = '/' → s.head? ≠ some '*') :
    stripComments (c :: s) = c :: stripComments s := by
  rw [stripComments.eq_3]
  rintro rest rfl rfl
  exact h rfl rfl

theorem stripComments_ne_of_comment (s : List Char) :
    stripComments ('/' :: '*' :: s) ≠ '/' :: '*' :: s := by
  rw [stripComments]
  exact fun h => absurd (List.cons.inj h).1 (by decide)

/-- A text without comments is kept if none starts with its last character. -/
theorem stripComments_append (hx : stripComments x = x)
    (hlast : x.getLast? = some '/' → s.head? ≠ some '*') :
    stripComments (x ++ s) = x ++ stripComments s := by
  induction x with
  | nil => rfl
  | cons c rest ih =>
    have hstart : c = '/' → rest.head? ≠ some '*' := by
      rintro rfl hstar
      obtain ⟨more, rfl⟩ := List.head?_eq_some_iff.1 hstar
      exact stripComments_ne_of_comment more hx
    have hrest : stripComments rest = rest := by
      rw [stripComments_cons hstart] at hx
      exact (List.cons.inj hx).2
    cases rest with
    | nil =>
      exact stripComments_cons fun hc => hlast (congrArg some hc)
    | cons d more =>
      rw [List.getLast?_cons_cons] at hlast
      have hmore : c = '/' → (d :: more ++ s).head? ≠ some '*' := hstart
      rw [List.cons_append, stripComments_cons hmore, ih hrest hlast]
      rfl

/-- Each comment that is cut out leaves the text shorter. -/
theorem length_stripComments (s : List Char) :
    stripComments s = s ∨ (stripComments s).length < s.length := by
  fun_induction stripComments s with
  | case1 => exact Or.inl rfl
  | case2 rest ih =>
    have hafter := length_afterComment_le rest
    have hle : (stripComments (afterComment rest)).length ≤ (afterComment rest).length := by
      rcases ih with h | h
      · exact Nat.le_of_eq (congrArg List.length h)
      · exact Nat.le_of_lt h
    exact Or.inr (by simp only [List.length_cons]; omega)
  | case3 c rest _ ih =>
    rcases ih with h | h
    · exact Or.inl (congrArg _ h)
    · exact Or.inr (Nat.succ_lt_succ h)

/-! ## Plain texts -/

/-- A text that is in plain form. -/
def IsPlain (x : List Char) : Prop := normalizeBlanks (stripComments x) = x

theorem isPlain_iff : IsPlain x ↔ stripComments x = x ∧ normalizeBlanks x = x := by
  constructor
  · intro h
    have hstrip : stripComments x = x := by
      rcases length_stripComments x with hsame | hlt
      · exact hsame
      · have hle := (length_normalizeBlanks_le (stripComments x)).1
        rw [h] at hle
        omega
    rw [IsPlain, hstrip] at h
    exact ⟨hstrip, h⟩
  · rintro ⟨hstrip, hblanks⟩
    rw [IsPlain, hstrip, hblanks]

theorem IsPlain.isTrimmed (h : IsPlain x) : Text.IsTrimmed x := by
  have htrimmed := isTrimmed_normalizeBlanks x
  rwa [(isPlain_iff.1 h).2] at htrimmed

end Theming.Sheet
