import Theming.Proofs.Sheet.PlainText
import Theming.Proofs.Sheet.Respacing

set_option autoImplicit false

/-! # Plain form of templates

Plain form replaces comments by blanks and collapses blanks without looking at tokens. It leaves the
tree as it is, apart from the comments, if it leaves each token as it is that is no comment
(`parse_plainForm`): such a token is cut off in front of what the rest of the text becomes, just as
in front of the rest (`Token.CutBefore.plain`), and has a gap behind it if it had one before. This
holds of words that are cut off for what does not follow as well, since a line feed is kept.

A token that is changed may say something else afterwards (`plainForm_changes_value`). -/

namespace Theming.Sheet

open Text (isBlank)

/-! ## What the rest of a text becomes -/

/-- No character but a gap starts the text. -/
def Gapped (s : List Char) : Prop := ∀ c, s.head? = some c → Token.isGap c = true

/-- What holds of each gap. -/
theorem of_isGap {p : Char → Bool} (h : [' ', '\t', '\n', '\r', '\x0c'].all p = true) {c : Char}
    (hc : Token.isGap c = true) : p c = true :=
  List.all_eq_true.1 h c (by simpa [Token.isGap, or_assoc] using hc)

theorem isBlank_of_isGap {c : Char} (h : Token.isGap c = true) : isBlank c = true :=
  of_isGap (by decide) h

/-- Blanks become a spacer, or nothing at the end. -/
theorem afterText_blank {c : Char} (hc : isBlank c = true) (s : List Char) :
    (afterText (c :: s) = [] ∧ normalizeBlanks (c :: s) = []) ∨
      ∃ d, Token.isGap d = true ∧ afterText (c :: s) = d :: normalizeBlanks (c :: s) := by
  by_cases hs : ∀ d ∈ s, isBlank d = true
  · have hall : ∀ d ∈ c :: s, isBlank d = true := List.forall_mem_cons.2 ⟨hc, hs⟩
    rw [afterText, spacer_of_blanks hall, normalizeBlanks_eq_nil_iff.2 hall]
    exact Or.inl ⟨rfl, rfl⟩
  · have hne : spacer (c :: s) ≠ [] := by
      have hall : s.all isBlank = false := by simpa using hs
      rw [spacer, List.all_cons, hall, Bool.and_false, List.takeWhile_cons_of_pos hc]
      simp only [Bool.false_eq_true, if_false, List.cons_ne_nil]
      split <;> simp
    rcases spacer_cases (c :: s) with hnone | hspace | hline
    · exact absurd hnone hne
    · exact Or.inr ⟨' ', by decide, by rw [afterText, hspace]; rfl⟩
    · exact Or.inr ⟨'\n', by decide, by rw [afterText, hline]; rfl⟩

theorem afterText_line (s : List Char) :
    afterText ('\n' :: s) = [] ∨ ∃ rest, afterText ('\n' :: s) = '\n' :: rest := by
  by_cases hs : ∀ d ∈ s, isBlank d = true
  · have hall : ∀ d ∈ '\n' :: s, isBlank d = true := List.forall_mem_cons.2 ⟨by decide, hs⟩
    rw [afterText, spacer_of_blanks hall, normalizeBlanks_eq_nil_iff.2 hall]
    exact Or.inl rfl
  · have hline : spacer ('\n' :: s) = ['\n'] :=
      spacer_lines (a := []) (fun _ h => by cases h) hs
    exact Or.inr ⟨_, by rw [afterText, hline]; rfl⟩

namespace Token

/-! ## Strings that are not closed -/

/-- Where a string ends that is not closed. -/
theorem stringLength_eq_zero {quote : Char} {s : List Char}
    (h : stringLength quote s = (false, 0)) :
    s = [] ∨ s = ['\\'] ∨ (∃ rest, s = '\\' :: '\n' :: rest) ∨
      ∃ rest, s = '\n' :: rest ∧ '\n' ≠ quote := by
  fun_induction stringLength quote s with
  | case1 => exact Or.inl rfl
  | case2 => exact Or.inr (Or.inl rfl)
  | case3 rest => exact Or.inr (Or.inr (Or.inl ⟨rest, rfl⟩))
  | case4 | case5 | case7 => cases h
  | case6 rest _ _ hquote => exact Or.inr (Or.inr (Or.inr ⟨rest, rfl, hquote⟩))

theorem stringLength_line {quote : Char} (hquote : '\n' ≠ quote) (rest : List Char) :
    stringLength quote ('\n' :: rest) = (false, 0) := by
  rw [stringLength.eq_4, if_neg hquote, if_pos rfl]
  · rintro ⟨⟩
  · rintro _ _ ⟨⟩

/-- A string that is closed ends with its quote. -/
theorem take_of_closed {quote : Char} {s : List Char} {n : Nat}
    (h : stringLength quote s = (true, n)) : ∃ inner, s.take n = inner ++ [quote] := by
  fun_induction stringLength quote s generalizing n with
  | case1 | case2 | case3 | case6 => cases (Prod.mk.inj h).1
  | case4 c rest hline closed count heq ih =>
    obtain ⟨rfl, rfl⟩ := Prod.mk.inj h
    obtain ⟨inner, hinner⟩ := ih heq
    exact ⟨'\\' :: c :: inner, by rw [List.take_succ_cons, List.take_succ_cons, hinner]; rfl⟩
  | case5 rest =>
    obtain ⟨-, rfl⟩ := Prod.mk.inj h
    exact ⟨[], rfl⟩
  | case7 c rest hone htwo hquote hline closed count heq ih =>
    obtain ⟨rfl, rfl⟩ := Prod.mk.inj h
    obtain ⟨inner, hinner⟩ := ih heq
    exact ⟨c :: inner, by rw [List.take_succ_cons, hinner]; rfl⟩

/-- A string that is not closed goes up to such a place, whatever stands there. -/
theorem stringLength_open {quote : Char} {rest s : List Char}
    (h : stringLength quote (rest ++ s) = (false, rest.length)) :
    stringLength quote s = (false, 0) ∧ ∀ tail, stringLength quote tail = (false, 0) →
      stringLength quote (rest ++ tail) = (false, rest.length) := by
  fun_induction stringLength quote rest with
  | case1 => exact ⟨h, fun tail htail => htail⟩
  | case2 =>
    cases s with
    | nil => cases h
    | cons c more =>
      rw [List.singleton_append, stringLength.eq_3] at h
      split at h <;> cases (Prod.mk.inj h).2
  | case3 more =>
    rw [List.cons_append, List.cons_append, stringLength.eq_3, if_pos rfl] at h
    cases (Prod.mk.inj h).2
  | case4 c more hline closed n heq ih =>
    have hskip : ∀ tail, stringLength quote ('\\' :: c :: (more ++ tail)) =
        ((stringLength quote (more ++ tail)).1, (stringLength quote (more ++ tail)).2 + 2) :=
      fun tail => by rw [stringLength.eq_3, if_neg hline]
    rw [List.cons_append, List.cons_append, hskip] at h
    obtain ⟨hclosed, hlength⟩ := Prod.mk.inj h
    obtain ⟨hend, hopen⟩ := ih (Prod.ext hclosed (by simpa using hlength))
    refine ⟨hend, fun tail htail => ?_⟩
    rw [List.cons_append, List.cons_append, hskip, hopen tail htail]
    rfl
  | case5 more hone htwo =>
    rw [List.cons_append, stringLength_cons hone htwo, if_pos rfl] at h
    cases (Prod.mk.inj h).1
  | case6 more hone htwo hquote =>
    rw [List.cons_append, stringLength_cons hone htwo, if_neg hquote, if_pos rfl] at h
    cases (Prod.mk.inj h).2
  | case7 c more hone htwo hquote hline closed n heq ih =>
    have hskip : ∀ tail, stringLength quote (c :: (more ++ tail)) =
        ((stringLength quote (more ++ tail)).1, (stringLength quote (more ++ tail)).2 + 1) :=
      fun tail => by rw [stringLength_cons hone htwo, if_neg hquote, if_neg hline]
    rw [List.cons_append, hskip] at h
    obtain ⟨hclosed, hlength⟩ := Prod.mk.inj h
    obtain ⟨hend, hopen⟩ := ih (Prod.ext hclosed (by simpa using hlength))
    refine ⟨hend, fun tail htail => ?_⟩
    rw [List.cons_append, hskip, hopen tail htail]
    rfl

/-- The quote of a word that a quote starts is not closed. -/
theorem stringLength_of_word {kind : Kind} (hkind : kind ≠ .word) {quote : Char} {s : List Char}
    {n : Nat} : afterQuote kind quote s = (.word, n) ↔ stringLength quote s = (false, n) := by
  unfold afterQuote
  dsimp only
  cases hclosed : (stringLength quote s).1 with
  | true =>
    rw [if_pos rfl]
    constructor
    · exact fun h => absurd (Prod.mk.inj h).1 hkind
    · intro h
      rw [h] at hclosed
      cases hclosed
  | false =>
    rw [if_neg (by decide), Prod.ext_iff, Prod.ext_iff, hclosed]
    simp

/-! ## Tokens in front of other text -/

/-- What can stand behind a token in place of a text: a text with the same first character, or a
    gap, and the end if there was nothing. A string that is not closed still ends there. -/
structure Replaces (s tail : List Char) : Prop where
  first : tail.head? = s.head? ∨ Gapped tail
  ends : s = [] → tail = []
  opens : ∀ quote, stringLength quote s = (false, 0) → stringLength quote tail = (false, 0)

variable {t : Token} {s tail : List Char}

theorem Replaces.follows (h : Replaces s tail) : Follows s tail := by
  rcases h.first with hsame | hgapped
  · exact Or.inl hsame
  · exact Or.inr fun c hc => isSeparator_of_isGap (hgapped c hc)

/-- What no gap satisfies holds of the first character of neither text. -/
theorem Replaces.head {p : Char → Bool} (h : Replaces s tail)
    (hgap : ∀ c, isGap c = true → p c = false) (hs : ∀ c, s.head? = some c → p c = false) :
    ∀ c, tail.head? = some c → p c = false := by
  intro c hc
  rcases h.first with hsame | hgapped
  · exact hs c (hsame ▸ hc)
  · exact hgap c (hgapped c hc)

theorem afterDollar_eq_zero_iff : afterDollar s = (.word, 0) ↔
    ∀ c, s.head? = some c → (c == '\x7b' || isWordChar c) = false := by
  cases s with
  | nil => simp [afterDollar]
  | cons c rest =>
    by_cases hc : c = '\x7b'
    · subst hc
      rw [afterDollar]
      split <;> simp
    · rw [afterDollar_of_ne hc]
      cases hword : isWordChar c <;> simp [hc, hword]

theorem afterAt_eq_zero_iff :
    afterAt s = (.word, 0) ↔ ∀ c, s.head? = some c → isKeywordStart c = false := by
  cases s with
  | nil => simp [afterAt]
  | cons c rest => cases hc : isKeywordStart c <;> simp [afterAt, hc]

/-- A word that starts with a dollar sign. -/
theorem afterDollar_replaces {rest : List Char} (hreplaces : Replaces s tail)
    (h : afterDollar (rest ++ s) = (.word, rest.length)) :
    afterDollar (rest ++ tail) = (.word, rest.length) := by
  cases rest with
  | nil =>
    refine afterDollar_eq_zero_iff.2 (hreplaces.head (fun c hc => ?_) (afterDollar_eq_zero_iff.1 h))
    simpa using of_isGap (p := fun d => !(d == '\x7b' || isWordChar d)) (by decide) hc
  | cons c more =>
    by_cases hc : c = '\x7b'
    · -- An interpolation that is not closed takes all there is.
      subst hc
      rw [List.cons_append, afterDollar] at h
      split at h
      · cases (Prod.mk.inj h).1
      · have hs : s = [] := by simpa using (Prod.mk.inj h).2
        next hopen =>
          rw [hs] at hopen
          rw [hreplaces.ends hs, List.cons_append, afterDollar, if_neg hopen]
          simp
    · exact afterDollar_follows hreplaces.follows (List.cons_ne_nil c more)
        (fun _ hhead => hc (Option.some.inj hhead)) h

theorem afterAt_replaces {rest : List Char} (hreplaces : Replaces s tail)
    (h : afterAt (rest ++ s) = (.word, rest.length)) :
    afterAt (rest ++ tail) = (.word, rest.length) := by
  cases rest with
  | nil =>
    refine afterAt_eq_zero_iff.2 (hreplaces.head (fun c hc => ?_) (afterAt_eq_zero_iff.1 h))
    simpa using of_isGap (p := fun d => !isKeywordStart d) (by decide) hc
  | cons c more =>
    rw [List.cons_append, afterAt] at h
    split at h
    · cases (Prod.mk.inj h).1
    · cases (Prod.mk.inj h).2

theorem afterQuote_replaces {kind : Kind} (hkind : kind ≠ .word) {quote : Char} {rest : List Char}
    (hreplaces : Replaces s tail)
    (h : afterQuote kind quote (rest ++ s) = (.word, rest.length)) :
    afterQuote kind quote (rest ++ tail) = (.word, rest.length) := by
  rw [stringLength_of_word hkind] at h ⊢
  obtain ⟨hend, hopen⟩ := stringLength_open h
  exact hopen tail (hreplaces.opens quote hend)

/-- **A token stays what it is** in front of such a text. -/
theorem CutBefore.replaces (h : t.CutBefore s) (hcomment : t.kind ≠ .comment)
    (hreplaces : Replaces s tail) : t.CutBefore tail := by
  by_cases hword : t.kind = .word
  · obtain ⟨c, rest, htext, hgap, hnext⟩ := h
    refine ⟨c, rest, htext, hgap, ?_⟩
    rw [hword] at hnext ⊢
    rcases next_cases c with ⟨kind, -, heq⟩ | ⟨rfl, heq⟩ | ⟨rfl, heq⟩ | ⟨rfl, heq⟩ | ⟨-, heq⟩ |
      ⟨-, heq⟩ | ⟨-, heq⟩
    all_goals rw [heq] at hnext ⊢
    · exact hnext
    · unfold afterSlash at hnext
      split at hnext <;> cases (Prod.mk.inj hnext).1
    · exact afterAt_replaces hreplaces hnext
    · exact afterDollar_replaces hreplaces hnext
    · exact afterQuote_replaces (by decide) hreplaces hnext
    · exact afterQuote_replaces (by decide) hreplaces hnext
    · rw [takeWhile_follows hreplaces.follows (fun _ => isWordChar_of_isSeparator)
        (Prod.mk.inj hnext).2]
  · exact h.follows (fun hkind => absurd hkind hword) hcomment hreplaces.follows

/-! ## Tokens in front of plain form -/

/-- What the rest of a text becomes can stand in its place. -/
theorem replaces_afterText (s : List Char) : Replaces s (afterText (stripComments s)) where
  first := by
    have hblank : ∀ c rest, isBlank c = true → Gapped (afterText (c :: rest)) := by
      intro c rest hc d hd
      rcases afterText_blank hc rest with ⟨hnil, -⟩ | ⟨e, he, hcons⟩
      · rw [hnil] at hd
        cases hd
      · rw [hcons] at hd
        exact (Option.some.inj hd) ▸ he
    cases s with
    | nil => exact Or.inl (by rw [stripComments_nil]; rfl)
    | cons c rest =>
      by_cases hstart : c = '/' ∧ rest.head? = some '*'
      · obtain ⟨rfl, hstar⟩ := hstart
        obtain ⟨more, rfl⟩ := List.head?_eq_some_iff.1 hstar
        rw [stripComments]
        exact Or.inr (hblank ' ' _ (by decide))
      · rw [stripComments_cons (not_and.1 hstart)]
        cases hc : isBlank c with
        | true => exact Or.inr (hblank c _ hc)
        | false => exact Or.inl (by rw [afterText_cons hc]; rfl)
  ends := by
    rintro rfl
    rw [stripComments_nil]
    rfl
  opens quote h := by
    have hback : ∀ rest, afterText (stripComments ('\\' :: rest)) =
        '\\' :: afterText (stripComments rest) := fun rest => by
      rw [stripComments_cons (fun hc => absurd hc (by decide)), afterText_cons (by decide)]
    have hline : ∀ rest, stripComments ('\n' :: rest) = '\n' :: stripComments rest := fun rest =>
      stripComments_cons (fun hc => absurd hc (by decide))
    rcases stringLength_eq_zero h with rfl | rfl | ⟨rest, rfl⟩ | ⟨rest, rfl, hquote⟩
    · rw [stripComments_nil]
      exact h
    · rw [hback, stripComments_nil]
      rfl
    · rw [hback, hline]
      rcases afterText_line (stripComments rest) with hnil | ⟨more, hcons⟩
      · rw [hnil]
        rfl
      · rw [hcons]
        rfl
    · rw [hline]
      rcases afterText_line (stripComments rest) with hnil | ⟨more, hcons⟩
      · rw [hnil]
        rfl
      · rw [hcons]
        exact stringLength_line hquote more

theorem afterQuote_ne_star {kind k : Kind} {quote : Char} {rest : List Char}
    (hquote : quote ≠ '/') (hlast : (quote :: rest).getLast? = some '/')
    (h : afterQuote kind quote (rest ++ s) = (k, rest.length)) : s.head? ≠ some '*' := by
  have hlength : (stringLength quote (rest ++ s)).2 = rest.length := (Prod.mk.inj h).2
  cases hclosed : (stringLength quote (rest ++ s)).1 with
  | true =>
    obtain ⟨inner, hinner⟩ := take_of_closed (Prod.ext hclosed hlength)
    rw [List.take_left] at hinner
    rw [hinner, ← List.cons_append, List.getLast?_concat] at hlast
    exact absurd (Option.some.inj hlast) hquote
  | false =>
    have hend := (stringLength_open (Prod.ext hclosed hlength)).1
    rcases stringLength_eq_zero hend with rfl | rfl | ⟨more, rfl⟩ | ⟨more, rfl, -⟩
    all_goals exact fun hstar => by cases hstar

theorem afterDollar_ne_star {k : Kind} {rest : List Char}
    (hlast : ('$' :: rest).getLast? = some '/') (h : afterDollar (rest ++ s) = (k, rest.length)) :
    s.head? ≠ some '*' := by
  cases rest with
  | nil => cases hlast
  | cons c more =>
    rw [List.getLast?_cons_cons] at hlast
    by_cases hc : c = '\x7b'
    · subst hc
      rw [List.cons_append, afterDollar] at h
      split at h
      · -- The last character of an interpolation is its closing brace.
        rcases List.eq_nil_or_concat more with rfl | ⟨inner, e, rfl⟩
        · cases hlast
        · rw [List.concat_eq_append] at h hlast
          rw [← List.cons_append, List.getLast?_concat] at hlast
          obtain rfl : e = '/' := Option.some.inj hlast
          have hlength := (Prod.mk.inj h).2
          simp only [List.append_assoc, List.singleton_append, List.length_append,
            List.length_cons, List.length_nil, Nat.zero_add, Nat.add_right_cancel_iff] at hlength
          have hstop := (takeWhile_stops_iff.1 hlength).2 '/' rfl
          exact absurd hstop (by decide)
      · have hs : s = [] := by simpa using (Prod.mk.inj h).2
        rw [hs]
        exact fun hstar => by cases hstar
    · rw [List.cons_append, afterDollar_of_ne hc, ← List.cons_append] at h
      have hall := (takeWhile_stops_iff.1 (Prod.mk.inj h).2).1 '/' (List.mem_of_getLast? hlast)
      exact absurd hall (by decide)

/-- No comment starts with the last character of a token. -/
theorem CutBefore.head_ne_star (h : t.CutBefore s) (hcomment : t.kind ≠ .comment)
    (hlast : t.text.getLast? = some '/') : s.head? ≠ some '*' := by
  obtain ⟨c, rest, htext, -, hnext⟩ := h
  rw [htext] at hlast
  have hmem : '/' = c ∨ '/' ∈ rest := List.mem_cons.1 (List.mem_of_getLast? hlast)
  rcases next_cases c with ⟨kind, hsingle, heq⟩ | ⟨-, heq⟩ | ⟨rfl, heq⟩ | ⟨rfl, heq⟩ | ⟨rfl, heq⟩ |
    ⟨hc, heq⟩ | ⟨-, heq⟩
  all_goals rw [heq] at hnext
  · obtain rfl : rest = [] := List.length_eq_zero_iff.1 (Prod.mk.inj hnext).2.symm
    obtain rfl : c = '/' := Option.some.inj hlast
    cases hsingle
  · intro hstar
    obtain ⟨more, rfl⟩ := List.head?_eq_some_iff.1 hstar
    cases rest with
    | nil =>
      rw [List.nil_append, afterSlash] at hnext
      exact hcomment (Prod.mk.inj hnext).1.symm
    | cons d inner =>
      unfold afterSlash at hnext
      split at hnext
      · exact hcomment (Prod.mk.inj hnext).1.symm
      · cases (Prod.mk.inj hnext).2
  · cases rest with
    | nil => cases hlast
    | cons d more =>
      rw [List.cons_append, afterAt] at hnext
      split at hnext
      · next hstart =>
        have hall := (takeWhile_stops_iff.1 (Nat.succ.inj (Prod.mk.inj hnext).2)).1
        rcases hmem with heq | hmem
        · cases heq
        · rcases List.mem_cons.1 hmem with rfl | hmem
          · exact absurd hstart (by decide)
          · exact absurd (hall '/' hmem) (by decide)
      · cases (Prod.mk.inj hnext).2
  · exact afterDollar_ne_star hlast hnext
  · exact afterQuote_ne_star (by decide) hlast hnext
  · refine afterQuote_ne_star ?_ hlast hnext
    rintro rfl
    cases hc
  · rcases hmem with rfl | hmem
    · exact absurd (heq []) (by decide)
    · have hall := (takeWhile_stops_iff.1 (Prod.mk.inj hnext).2).1 '/' hmem
      exact absurd hall (by decide)

/-! ## Scanning plain form -/

/-- The first token of a text that starts with no gap. -/
theorem cutBefore_next {c : Char} (hgap : isGap c = false) (rest : List Char) (start stop : Nat) :
    CutBefore ⟨(next c rest).1, c :: rest.take (next c rest).2, start, stop⟩
      (rest.drop (next c rest).2) := by
  refine ⟨c, rest.take (next c rest).2, rfl, hgap, ?_⟩
  rw [List.take_append_drop, List.length_take, Nat.min_eq_left (next_le c rest)]

theorem scanFrom_of_not_gap {c : Char} (hgap : isGap c = false) (o : Nat) (rest : List Char) :
    ∃ t tail, t.CutBefore tail ∧ c :: rest = t.text ++ tail ∧ t.start = o ∧
      scanFrom o (c :: rest) = t :: scanFrom t.stop tail := by
  refine ⟨_, _, cutBefore_next hgap rest o (o + Text.byteLength (c :: rest.take (next c rest).2)),
    ?_, rfl, ?_⟩
  · rw [List.cons_append, List.take_append_drop]
  · rw [scanFrom, if_neg (by simp [hgap])]

/-- No token starts before the text does. -/
theorem le_start_of_head? {o : Nat} {t : Token} (h : (scanFrom o s).head? = some t) :
    o ≤ t.start := by
  obtain ⟨rest, hscan⟩ := List.head?_eq_some_iff.1 h
  obtain ⟨-, -, -, hstart, -⟩ := scanFrom_cons hscan
  exact hstart

/-- The plain form of a text that starts with a plain token. -/
theorem CutBefore.normalizeBlanks (h : t.CutBefore tail) (hcomment : t.kind ≠ .comment)
    (hplain : IsPlain t.text) :
    Sheet.normalizeBlanks (stripComments (t.text ++ tail)) =
      t.text ++ afterText (stripComments tail) := by
  obtain ⟨hstrip, hblanks⟩ := isPlain_iff.1 hplain
  have hlast : ∃ c, t.text.getLast? = some c ∧ isBlank c = false := by
    have hsome := List.getLast?_eq_some_getLast h.text_ne_nil
    exact ⟨_, hsome, hplain.isTrimmed.2 _ hsome⟩
  rw [stripComments_append hstrip (h.head_ne_star hcomment), normalizeBlanks_append hlast, hblanks]

theorem afterComment_eq (s : List Char) : afterComment s = s.drop (commentLength s) := by
  fun_induction commentLength s with
  | case1 => rfl
  | case2 rest => rfl
  | case3 c rest h ih =>
    rw [afterComment.eq_3 c rest h, ih, List.drop_succ_cons]

/-- The plain form of a text that starts with a comment. -/
theorem CutBefore.normalizeBlanks_comment (h : t.CutBefore tail) (hcomment : t.kind = .comment) :
    Sheet.normalizeBlanks (stripComments (t.text ++ tail)) =
      Sheet.normalizeBlanks (stripComments tail) := by
  obtain ⟨inner, htext, hlength⟩ := h.comment hcomment
  rw [htext, List.cons_append, List.cons_append, stripComments,
    normalizeBlanks_cons_blank (by decide), afterComment_eq, hlength, List.drop_left]

theorem stripComments_gap {c : Char} (hgap : isGap c = true) (rest : List Char) :
    stripComments (c :: rest) = c :: stripComments rest := by
  refine stripComments_cons fun hc => ?_
  subst hc
  cases hgap

/-- What a gap or a comment becomes in front of a text. -/
theorem stripComments_lead {c : Char} {rest : List Char}
    (hlead : isGap c = true ∨ c = '/' ∧ rest.head? = some '*') :
    ∃ d more, isBlank d = true ∧ stripComments (c :: rest) = d :: more := by
  rcases hlead with hgap | ⟨rfl, hstar⟩
  · exact ⟨c, _, isBlank_of_isGap hgap, stripComments_gap hgap rest⟩
  · obtain ⟨more, rfl⟩ := List.head?_eq_some_iff.1 hstar
    exact ⟨' ', _, by decide, by rw [stripComments]⟩

/-- Behind a gap, or from a comment on, the first token has a gap in front of it. -/
theorem head_scanFrom_lead {c : Char} {rest : List Char} {o : Nat}
    (hlead : isGap c = true ∨ c = '/' ∧ rest.head? = some '*')
    (h : (scanFrom o (c :: rest)).head? = some t) : t.kind = .comment ∨ o < t.start := by
  rcases hlead with hgap | ⟨rfl, hstar⟩
  · rw [scanFrom_gap hgap] at h
    have hle := le_start_of_head? h
    have hpos := Char.utf8Size_pos c
    exact Or.inr (by omega)
  · obtain ⟨more, rfl⟩ := List.head?_eq_some_iff.1 hstar
    rw [scanFrom, if_neg (by decide)] at h
    exact Or.inl ((Option.some.inj h) ▸ rfl)

/-- Where neither a gap nor a comment starts, a token does, with no blank in front. -/
theorem first_of_plain {c : Char} {rest : List Char} {o : Nat} (hgap : isGap c = false)
    (hslash : ¬ (c = '/' ∧ rest.head? = some '*'))
    (hplain : ∀ t ∈ scanFrom o (c :: rest), t.kind ≠ .comment → IsPlain t.text) :
    ∃ t others, scanFrom o (c :: rest) = t :: others ∧ t.kind ≠ .comment ∧ t.start = o ∧
      isBlank c = false := by
  obtain ⟨t, tail, hcut, htext, hstart, hscan⟩ := scanFrom_of_not_gap hgap o rest
  have hcomment : t.kind ≠ .comment := by
    intro hkind
    obtain ⟨inner, heq, -⟩ := hcut.comment hkind
    rw [heq] at htext
    obtain ⟨rfl, rfl⟩ := List.cons.inj htext
    exact hslash ⟨rfl, rfl⟩
  refine ⟨t, _, hscan, hcomment, hstart, ?_⟩
  have hself := hplain t (by rw [hscan]; exact List.mem_cons_self) hcomment
  obtain ⟨d, inner, hcons⟩ := List.exists_cons_of_ne_nil hcut.text_ne_nil
  refine hself.isTrimmed.1 c ?_
  rw [hcons] at htext ⊢
  exact congrArg some (List.cons.inj htext).1.symm

/-- Behind other text, plain form has a gap where the text has one. -/
theorem respaced_afterText {o : Nat}
    (hplain : ∀ t ∈ scanFrom o s, t.kind ≠ .comment → IsPlain t.text)
    (h : ∀ o', Alike (scanFrom o s) (scanFrom o' (Sheet.normalizeBlanks (stripComments s))))
    (o' : Nat) :
    Respaced false o false o' (scanFrom o s) (scanFrom o' (afterText (stripComments s))) := by
  cases s with
  | nil =>
    have hnil : afterText [] = [] := rfl
    rw [stripComments_nil, hnil, scanFrom_nil, scanFrom_nil]
    exact .nil
  | cons c rest =>
    by_cases hlead : isGap c = true ∨ c = '/' ∧ rest.head? = some '*'
    · obtain ⟨d, more, hd, hstrip⟩ := stripComments_lead hlead
      rw [hstrip] at h ⊢
      rcases afterText_blank hd more with ⟨hafter, hnorm⟩ | ⟨e, he, hafter⟩
      · have hself := h o'
        rw [hnorm, scanFrom_nil] at hself
        rw [hafter, scanFrom_nil]
        exact hself.behind_gap false (fun _ => head_scanFrom_lead hlead) (fun _ hu => by cases hu)
      · rw [hafter, scanFrom_gap he]
        refine (h (o' + e.utf8Size)).behind_gap false (fun _ => head_scanFrom_lead hlead) ?_
        intro u hu
        have hle := le_start_of_head? hu
        have hpos := Char.utf8Size_pos e
        omega
    · obtain ⟨hgap, hslash⟩ := not_or.1 hlead
      rw [Bool.not_eq_true] at hgap
      obtain ⟨t, others, hscan, hcomment, hstart, hc⟩ := first_of_plain hgap hslash hplain
      have hsame : afterText (stripComments (c :: rest)) =
          Sheet.normalizeBlanks (stripComments (c :: rest)) := by
        rw [stripComments_cons (not_and.1 hslash), afterText_cons hc, normalizeBlanks_cons hc]
      have hself := h o'
      rw [hsame]
      rw [hscan] at hself ⊢
      refine hself.adjacent hcomment (by omega) fun u hu => ?_
      rw [stripComments_cons (not_and.1 hslash), normalizeBlanks_cons hc] at hu
      obtain ⟨v, _, -, -, hv, hfirst⟩ :=
        scanFrom_of_not_gap hgap o' (afterText (stripComments rest))
      rw [hfirst] at hu
      obtain rfl : v = u := Option.some.inj hu
      omega

/-- **Plain form is scanned as the same tokens**, with gaps at the same places. -/
theorem alike_scanFrom {o : Nat}
    (hplain : ∀ t ∈ scanFrom o s, t.kind ≠ .comment → IsPlain t.text) (o' : Nat) :
    Alike (scanFrom o s) (scanFrom o' (Sheet.normalizeBlanks (stripComments s))) := by
  fun_induction scanFrom o s generalizing o' with
  | case1 =>
    have hnil : Sheet.normalizeBlanks [] = [] := rfl
    rw [stripComments_nil, hnil, scanFrom_nil]
    exact .nil
  | case2 o c rest hgap ih =>
    rw [stripComments_gap hgap, normalizeBlanks_cons_blank (isBlank_of_isGap hgap)]
    exact ih hplain o'
  | case3 o c rest hgap kind count hnext text stop ih =>
    have hcut : CutBefore ⟨kind, text, o, stop⟩ (rest.drop count) := by
      have hself := cutBefore_next (by simpa using hgap) rest o stop
      rwa [hnext] at hself
    have htext : c :: rest = text ++ rest.drop count := by
      rw [List.cons_append, List.take_append_drop]
    have hothers : ∀ t ∈ scanFrom stop (rest.drop count), t.kind ≠ .comment → IsPlain t.text :=
      fun t ht => hplain t (List.mem_cons_of_mem _ ht)
    rw [htext]
    by_cases hcomment : kind = .comment
    · refine .comment hcomment ?_
      rw [hcut.normalizeBlanks_comment hcomment]
      exact (ih hothers o').loosen 0 true 0
    · have hself := hplain _ List.mem_cons_self hcomment
      have hafter := hcut.replaces hcomment (replaces_afterText (rest.drop count))
      have hnormal := hcut.normalizeBlanks hcomment hself
      dsimp only at hnormal
      rw [hnormal, scanFrom_cut hafter]
      exact .token hcomment rfl (fun h => by cases h) (respaced_afterText hothers (ih hothers) _)

end Token

/-- **Plain form keeps the tree**, apart from the comments, if it keeps each token that is no
    comment. -/
theorem parse_plainForm (template : String)
    (h : ∀ t ∈ Token.scan template, t.kind ≠ .comment →
      plainForm (String.ofList t.text) = String.ofList t.text) :
    parse (plainForm template) = (parse template).withoutComments := by
  have hplain : ∀ t ∈ Token.scan template, t.kind ≠ .comment → IsPlain t.text := by
    intro t ht hkind
    have hsame := congrArg String.toList (h t ht hkind)
    rwa [plainForm, String.toList_ofList, String.toList_ofList] at hsame
  have halike := Token.alike_scanFrom hplain 0
  have hnodes := sameNodes_outline halike 0
  rw [parse, parse, withoutComments_root, read, read, Token.scan, plainForm, String.toList_ofList]
  exact congrArg Node.root hnodes

/-- Comments between and inside statements, a string, an interpolation, and a quote that is not
    closed up to the end of its line. -/
theorem parse_plainForm_untidy :
    let template := "/* a */ a, b\t\x7b p/**/q \x7b c :  \"s / t\"; \x7d\n\n d: $\x7be\x7d 'g\n; /* i"
    parse (plainForm template) = (parse template).withoutComments :=
  parse_plainForm _ (by decide +kernel)

/-- Blanks in a string are part of what it says. -/
theorem plainForm_changes_value :
    parse (plainForm "a \x7b content: \"x  y\" \x7d") ≠
      (parse "a \x7b content: \"x  y\" \x7d").withoutComments := by
  decide +kernel

end Theming.Sheet
