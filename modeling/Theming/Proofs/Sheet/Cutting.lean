import Theming.Sheet.Token

set_option autoImplicit false

/-! # Where tokens end

What ends a token: apart from comments, a token stays the same if something else stands behind it
that starts with the same character, or with a separator. The exceptions are words that are cut off
for what does not follow, such as a quote that is never closed; they are not firm.

So the firm tokens of a scanned text can be written again, one after the other (`Token.Run`,
`Token.run_scanFrom`). -/

namespace Theming.Sheet

namespace Token

/-! ## Separators -/

/-- A character that ends every token before it. -/
def isSeparator (c : Char) : Bool :=
  isGap c || c = ',' || c = ':' || c = ';' || c = '\x7b' || c = '\x7d'

/-- The text is empty or starts with a separator. -/
def Separated (s : List Char) : Prop := ∀ c, s.head? = some c → isSeparator c = true

theorem separated_nil : Separated [] := fun _ h => by cases h

theorem separated_cons {c : Char} (h : isSeparator c = true) (s : List Char) :
    Separated (c :: s) := by
  intro d hd
  obtain rfl : c = d := Option.some.inj hd
  exact h

theorem isSeparator_of_isGap {c : Char} (h : isGap c = true) : isSeparator c = true := by
  simp [isSeparator, h]

/-- What holds of each separator. -/
theorem of_isSeparator {p : Char → Bool}
    (h : [' ', '\t', '\n', '\r', '\x0c', ',', ':', ';', '\x7b', '\x7d'].all p = true) {c : Char}
    (hc : isSeparator c = true) : p c = true :=
  List.all_eq_true.1 h c (by simpa [isSeparator, isGap, or_assoc] using hc)

theorem isWordChar_of_isSeparator {c : Char} (h : isSeparator c = true) : isWordChar c = false := by
  simpa using of_isSeparator (p := fun d => !isWordChar d) (by decide) h

theorem isKeywordChar_of_isSeparator {c : Char} (h : isSeparator c = true) :
    isKeywordChar c = false := by
  simpa using of_isSeparator (p := fun d => !isKeywordChar d) (by decide) h

theorem ne_star_of_isSeparator {c : Char} (h : isSeparator c = true) : c ≠ '*' := by
  simpa using of_isSeparator (p := fun d => d != '*') (by decide) h

/-! ## Cutting one token off -/

/-- In front of the text `tail`, the token is cut off as it is. -/
def CutBefore (t : Token) (tail : List Char) : Prop :=
  ∃ c rest, t.text = c :: rest ∧ isGap c = false ∧ next c (rest ++ tail) = (t.kind, rest.length)

theorem CutBefore.text_ne_nil {t : Token} {tail : List Char} (h : t.CutBefore tail) :
    t.text ≠ [] := by
  obtain ⟨c, rest, htext, -, -⟩ := h
  rw [htext]
  exact List.cons_ne_nil c rest

theorem scanFrom_nil (o : Nat) : scanFrom o [] = [] := by rw [scanFrom]

theorem scanFrom_gap {c : Char} (h : isGap c = true) (o : Nat) (s : List Char) :
    scanFrom o (c :: s) = scanFrom (o + c.utf8Size) s := by rw [scanFrom, if_pos h]

/-- The token at another place. -/
def movedTo (t : Token) (o : Nat) : Token := ⟨t.kind, t.text, o, o + Text.byteLength t.text⟩

/-- A token is scanned where it is cut off. -/
theorem scanFrom_cut {t : Token} {tail : List Char} (h : t.CutBefore tail) (o : Nat) :
    scanFrom o (t.text ++ tail) =
      t.movedTo o :: scanFrom (o + Text.byteLength t.text) tail := by
  obtain ⟨c, rest, htext, hgap, hnext⟩ := h
  rw [htext, List.cons_append, scanFrom, if_neg (by simp [hgap]), hnext]
  dsimp only
  rw [List.take_left, List.drop_left, movedTo, htext]

/-! ## What stops a run of characters -/

theorem takeWhile_stops_iff {p : Char → Bool} {s tail : List Char} :
    ((s ++ tail).takeWhile p).length = s.length ↔
      (∀ c ∈ s, p c = true) ∧ ∀ c, tail.head? = some c → p c = false := by
  induction s with
  | nil =>
    cases tail with
    | nil => simp
    | cons d more => cases hd : p d <;> simp [hd]
  | cons c rest ih =>
    rw [List.cons_append, List.takeWhile_cons]
    cases hc : p c with
    | false => simp [hc]
    | true => simp [hc, ih]

/-- A character that starts no escape is read alone, whatever stands behind it. -/
theorem stringLength_cons {quote c : Char} {rest : List Char}
    (hone : c = '\\' → rest = [] → False)
    (htwo : ∀ d more, c = '\\' → rest = d :: more → False) (s : List Char) :
    stringLength quote (c :: s) =
      if c = quote then (true, 1)
      else if c = '\n' then (false, 0)
      else ((stringLength quote s).1, (stringLength quote s).2 + 1) := by
  have hescape : c ≠ '\\' := by
    rintro rfl
    cases rest with
    | nil => exact hone rfl rfl
    | cons d more => exact htwo d more rfl rfl
  rw [stringLength.eq_4]
  · exact fun hc => absurd hc hescape
  · exact fun _ _ hc => absurd hc hescape

/-- A string that is closed ends where it does, whatever stands behind it. -/
theorem stringLength_take {quote : Char} {s : List Char} (h : (stringLength quote s).1 = true)
    (tail : List Char) :
    stringLength quote (s.take (stringLength quote s).2 ++ tail) = stringLength quote s := by
  fun_induction stringLength quote s with
  | case1 | case2 | case3 | case6 => cases h
  | case4 c rest hline closed n heq ih =>
    rw [heq] at ih
    simp only at h ih ⊢
    rw [List.take_succ_cons, List.take_succ_cons, List.cons_append, List.cons_append,
      stringLength.eq_3, if_neg hline, ih h]
  | case5 rest hone htwo =>
    rw [List.take_succ_cons, List.cons_append, stringLength_cons hone htwo, if_pos rfl]
  | case7 c rest hone htwo hquote hline closed n heq ih =>
    rw [heq] at ih
    simp only at h ih ⊢
    rw [List.take_succ_cons, List.cons_append, stringLength_cons hone htwo, if_neg hquote,
      if_neg hline, ih h]

/-! ## Firm tokens -/

/-- A token that is no word cut off for what does not follow: a lone dollar or at sign, or one that
    starts with a quote or opens an interpolation. -/
def IsFirm (t : Token) : Prop :=
  t.kind = .word →
    t.text ≠ ['$'] ∧ t.text ≠ ['@'] ∧ t.text.head? ≠ some '"' ∧
      t.text.head?.map Char.toNat ≠ some 39 ∧ ¬ ['$', '\x7b'] <+: t.text
deriving Decidable

/-- The end of a run is seen from what stands right behind it: the same character as before, or a
    separator. -/
def Follows (s tail : List Char) : Prop := tail.head? = s.head? ∨ Separated tail

theorem Follows.head {s tail : List Char} (h : Follows s tail) {p : Char → Bool}
    (hs : ∀ c, s.head? = some c → p c = false)
    (hseparator : ∀ c, isSeparator c = true → p c = false) :
    ∀ c, tail.head? = some c → p c = false := by
  intro c hc
  rcases h with hsame | hseparated
  · exact hs c (hsame ▸ hc)
  · exact hseparator c (hseparated c hc)

/-- A word ends at the same character as before, or at a separator. -/
theorem takeWhile_follows {p : Char → Bool} {rest s tail : List Char} (hfollows : Follows s tail)
    (hseparator : ∀ c, isSeparator c = true → p c = false)
    (h : ((rest ++ s).takeWhile p).length = rest.length) :
    ((rest ++ tail).takeWhile p).length = rest.length := by
  obtain ⟨hall, hstop⟩ := takeWhile_stops_iff.1 h
  exact takeWhile_stops_iff.2 ⟨hall, hfollows.head hstop hseparator⟩

theorem afterQuote_follows {kind k : Kind} {quote : Char} {rest s : List Char}
    (hclosed : k ≠ .word) (h : afterQuote kind quote (rest ++ s) = (k, rest.length))
    (tail : List Char) : afterQuote kind quote (rest ++ tail) = (k, rest.length) := by
  unfold afterQuote at h ⊢
  dsimp only at h ⊢
  obtain ⟨hkind, hlength⟩ := Prod.mk.inj h
  have hstring : (stringLength quote (rest ++ s)).1 = true := by
    cases hopen : (stringLength quote (rest ++ s)).1 with
    | true => rfl
    | false =>
      rw [hopen] at hkind
      exact absurd hkind.symm hclosed
  have hsame := stringLength_take hstring tail
  rw [hlength, List.take_left] at hsame
  rw [hsame]
  exact h

theorem afterDollar_of_ne {c : Char} (h : c ≠ '\x7b') (s : List Char) :
    afterDollar (c :: s) = (.word, ((c :: s).takeWhile isWordChar).length) := by
  unfold afterDollar
  split
  · next heq => exact absurd (List.cons.inj heq).1 h
  · rfl

/-- An interpolation ends at its closing brace, whatever stands behind it. -/
theorem afterDollar_brace {rest s : List Char} {k : Kind} (hword : k ≠ .word)
    (h : afterDollar ('\x7b' :: (rest ++ s)) = (k, rest.length + 1)) (tail : List Char) :
    afterDollar ('\x7b' :: (rest ++ tail)) = (k, rest.length + 1) := by
  rw [afterDollar] at h ⊢
  split at h
  · obtain ⟨rfl, hlength⟩ := Prod.mk.inj h
    rcases List.eq_nil_or_concat rest with rfl | ⟨inner, e, rfl⟩
    · simp at hlength
    · -- All before the last character is no closing brace, and the last one is one.
      rw [List.concat_eq_append] at hlength ⊢
      simp only [List.append_assoc, List.singleton_append, List.length_append, List.length_cons,
        List.length_nil, Nat.zero_add, Nat.add_right_cancel_iff] at hlength ⊢
      obtain ⟨hall, hstop⟩ := takeWhile_stops_iff.1 hlength
      obtain rfl : e = '\x7d' := by simpa using hstop e rfl
      have hclosed : (inner ++ '\x7d' :: tail).contains '\x7d' = true := by simp
      rw [if_pos hclosed, takeWhile_stops_iff.2 ⟨hall, by simp⟩]
  · exact absurd (Prod.mk.inj h).1.symm hword

theorem afterDollar_follows {rest s tail : List Char} {k : Kind} (hfollows : Follows s tail)
    (hrest : rest ≠ []) (hbrace : k = .word → rest.head? ≠ some '\x7b')
    (h : afterDollar (rest ++ s) = (k, rest.length)) :
    afterDollar (rest ++ tail) = (k, rest.length) := by
  cases rest with
  | nil => exact absurd rfl hrest
  | cons c more =>
    rw [List.cons_append] at h ⊢
    by_cases hc : c = '\x7b'
    · subst hc
      exact afterDollar_brace (fun hword => hbrace hword rfl) h tail
    · rw [afterDollar_of_ne hc] at h ⊢
      obtain ⟨hkind, hlength⟩ := Prod.mk.inj h
      rw [hkind, ← List.cons_append,
        takeWhile_follows hfollows (fun _ => isWordChar_of_isSeparator) hlength]

theorem afterAt_follows {rest s tail : List Char} {k : Kind} (hfollows : Follows s tail)
    (hrest : rest ≠ []) (h : afterAt (rest ++ s) = (k, rest.length)) :
    afterAt (rest ++ tail) = (k, rest.length) := by
  cases rest with
  | nil => exact absurd rfl hrest
  | cons c more =>
    rw [List.cons_append, afterAt] at h ⊢
    split at h
    · next hstart =>
      obtain ⟨hkind, hlength⟩ := Prod.mk.inj h
      rw [if_pos hstart, hkind, takeWhile_follows hfollows
        (fun _ => isKeywordChar_of_isSeparator) (Nat.succ.inj hlength)]
      rfl
    · cases (Prod.mk.inj h).2

theorem afterSlash_of_ne {s : List Char} (h : s.head? ≠ some '*') : afterSlash s = (.slash, 0) := by
  unfold afterSlash
  split
  · exact absurd rfl h
  · rfl

theorem afterSlash_follows {rest s tail : List Char} {k : Kind} (hfollows : Follows s tail)
    (hcomment : k ≠ .comment) (h : afterSlash (rest ++ s) = (k, rest.length)) :
    afterSlash (rest ++ tail) = (k, rest.length) := by
  by_cases hstar : (rest ++ s).head? = some '*'
  · obtain ⟨more, hmore⟩ := List.head?_eq_some_iff.1 hstar
    rw [hmore, afterSlash] at h
    exact absurd (Prod.mk.inj h).1.symm hcomment
  · rw [afterSlash_of_ne hstar] at h
    obtain ⟨hkind, hlength⟩ := Prod.mk.inj h
    obtain rfl : rest = [] := List.length_eq_zero_iff.1 hlength.symm
    have htail : tail.head? ≠ some '*' := by
      rcases hfollows with hsame | hseparated
      · rw [hsame]
        exact hstar
      · exact fun hc => ne_star_of_isSeparator (hseparated '*' hc) rfl
    rw [List.nil_append, afterSlash_of_ne htail, hkind]
    rfl

theorem afterDollar_pos_of_ne_word {s : List Char} {k : Kind} {n : Nat} (hword : k ≠ .word)
    (h : afterDollar s = (k, n)) : n ≠ 0 := by
  unfold afterDollar at h
  split at h
  · split at h
    · rw [← (Prod.mk.inj h).2]
      exact Nat.succ_ne_zero _
    · exact absurd (Prod.mk.inj h).1.symm hword
  · exact absurd (Prod.mk.inj h).1.symm hword

/-- A firm token that starts with a dollar sign goes on, as no interpolation that is left open. -/
theorem IsFirm.after_dollar {t : Token} (hfirm : t.IsFirm) {rest s : List Char}
    (htext : t.text = '$' :: rest) (h : afterDollar (rest ++ s) = (t.kind, rest.length)) :
    rest ≠ [] ∧ (t.kind = .word → rest.head? ≠ some '\x7b') := by
  constructor
  · rintro rfl
    by_cases hword : t.kind = .word
    · exact (hfirm hword).1 htext
    · exact afterDollar_pos_of_ne_word hword h rfl
  · intro hword hbrace
    obtain ⟨more, rfl⟩ := List.head?_eq_some_iff.1 hbrace
    exact (hfirm hword).2.2.2.2 ⟨more, by rw [htext]; rfl⟩

theorem IsFirm.after_at {t : Token} (hfirm : t.IsFirm) {rest s : List Char}
    (htext : t.text = '@' :: rest) (h : afterAt (rest ++ s) = (t.kind, rest.length)) :
    rest ≠ [] := by
  rintro rfl
  have hword : t.kind = .word := by
    unfold afterAt at h
    split at h
    · split at h
      · cases (Prod.mk.inj h).2
      · exact (Prod.mk.inj h).1.symm
    · exact (Prod.mk.inj h).1.symm
  exact (hfirm hword).2.1 htext

theorem IsFirm.after_quote {t : Token} (hfirm : t.IsFirm) {c : Char} {rest : List Char}
    (htext : t.text = c :: rest) (hquote : c = '"' ∨ c.toNat = 39) : t.kind ≠ .word := by
  intro hword
  obtain ⟨-, -, hdouble, hsingle, -⟩ := hfirm hword
  rw [htext] at hdouble hsingle
  rcases hquote with rfl | hc
  · exact hdouble rfl
  · exact hsingle (congrArg some hc)

/-- What a token is cut off by is told by its first character. -/
theorem next_cases (c : Char) :
    (∃ kind, single? c = some kind ∧ ∀ s, next c s = (kind, 0)) ∨
      (c = '/' ∧ ∀ s, next c s = afterSlash s) ∨
      (c = '@' ∧ ∀ s, next c s = afterAt s) ∨
      (c = '$' ∧ ∀ s, next c s = afterDollar s) ∨
      (c = '"' ∧ ∀ s, next c s = afterQuote .doubleQuoted c s) ∨
      (c.toNat = 39 ∧ ∀ s, next c s = afterQuote .singleQuoted c s) ∨
      (c ≠ '@' ∧ ∀ s, next c s = (.word, (s.takeWhile isWordChar).length)) := by
  cases hsingle : single? c with
  | some kind => exact Or.inl ⟨kind, rfl, fun s => by rw [next, hsingle]⟩
  | none =>
    have hnext : ∀ s, next c s =
        if c = '/' then afterSlash s
        else if c = '@' then afterAt s
        else if c = '$' then afterDollar s
        else if c = '"' then afterQuote .doubleQuoted c s
        else if c.toNat = 39 then afterQuote .singleQuoted c s
        else (.word, (s.takeWhile isWordChar).length) := fun s => by rw [next, hsingle]
    refine Or.inr ?_
    by_cases hslash : c = '/'
    · exact Or.inl ⟨hslash, fun s => by rw [hnext, if_pos hslash]⟩
    refine Or.inr ?_
    by_cases hat : c = '@'
    · exact Or.inl ⟨hat, fun s => by rw [hnext, if_neg hslash, if_pos hat]⟩
    refine Or.inr ?_
    by_cases hdollar : c = '$'
    · exact Or.inl ⟨hdollar, fun s => by rw [hnext, if_neg hslash, if_neg hat, if_pos hdollar]⟩
    have hmarks : ∀ s, next c s =
        if c = '"' then afterQuote .doubleQuoted c s
        else if c.toNat = 39 then afterQuote .singleQuoted c s
        else (.word, (s.takeWhile isWordChar).length) := fun s => by
      rw [hnext, if_neg hslash, if_neg hat, if_neg hdollar]
    refine Or.inr ?_
    by_cases hdouble : c = '"'
    · exact Or.inl ⟨hdouble, fun s => by rw [hmarks, if_pos hdouble]⟩
    refine Or.inr ?_
    by_cases hquote : c.toNat = 39
    · exact Or.inl ⟨hquote, fun s => by rw [hmarks, if_neg hdouble, if_pos hquote]⟩
    · exact Or.inr ⟨hat, fun s => by rw [hmarks, if_neg hdouble, if_neg hquote]⟩

/-- **A firm token stays what it is** in front of the same character, or of a separator. -/
theorem CutBefore.follows {t : Token} {s : List Char} (h : t.CutBefore s) (hfirm : t.IsFirm)
    (hcomment : t.kind ≠ .comment) {tail : List Char} (hfollows : Follows s tail) :
    t.CutBefore tail := by
  obtain ⟨c, rest, htext, hgap, hnext⟩ := h
  refine ⟨c, rest, htext, hgap, ?_⟩
  rcases next_cases c with ⟨kind, -, heq⟩ | ⟨rfl, heq⟩ | ⟨rfl, heq⟩ | ⟨rfl, heq⟩ | ⟨hc, heq⟩ |
    ⟨hc, heq⟩ | ⟨-, heq⟩
  all_goals rw [heq] at hnext ⊢
  · exact hnext
  · exact afterSlash_follows hfollows hcomment hnext
  · exact afterAt_follows hfollows (hfirm.after_at htext hnext) hnext
  · obtain ⟨hrest, hbrace⟩ := hfirm.after_dollar htext hnext
    exact afterDollar_follows hfollows hrest hbrace hnext
  · exact afterQuote_follows (hfirm.after_quote htext (Or.inl hc)) hnext tail
  · exact afterQuote_follows (hfirm.after_quote htext (Or.inr hc)) hnext tail
  · obtain ⟨hkind, hlength⟩ := Prod.mk.inj hnext
    rw [hkind, takeWhile_follows hfollows (fun _ => isWordChar_of_isSeparator) hlength]

/-! ## What the kind of a token tells -/

theorem single?_kinds {c : Char} {kind : Kind} (h : single? c = some kind) :
    kind ≠ .atKeyword ∧ kind ≠ .comment ∧ c ≠ '@' := by
  refine ⟨?_, ?_, ?_⟩
  · rintro rfl
    unfold single? at h
    repeat' split at h
    all_goals cases h
  · rintro rfl
    unfold single? at h
    repeat' split at h
    all_goals cases h
  · rintro rfl
    cases h

theorem afterDollar_kinds (s : List Char) :
    (afterDollar s).1 ≠ .atKeyword ∧ (afterDollar s).1 ≠ .comment := by
  unfold afterDollar
  split
  · split <;> simp
  · simp

theorem afterQuote_kinds {kind k : Kind} {quote : Char} {s : List Char} (hkind : kind ≠ k)
    (hword : k ≠ .word) : (afterQuote kind quote s).1 ≠ k := by
  unfold afterQuote
  dsimp only
  split
  · exact hkind
  · exact hword.symm

/-- At-words start with an at sign, and comments with a slash. -/
theorem next_kind (c : Char) (s : List Char) :
    ((next c s).1 = .atKeyword → c = '@' ∧ next c s = afterAt s) ∧
      ((next c s).1 = .comment → c = '/' ∧ next c s = afterSlash s) := by
  rcases next_cases c with ⟨kind, hc, heq⟩ | ⟨hc, heq⟩ | ⟨hc, heq⟩ | ⟨-, heq⟩ | ⟨-, heq⟩ |
    ⟨-, heq⟩ | ⟨-, heq⟩
  all_goals rw [heq]
  · exact ⟨fun h => absurd h (single?_kinds hc).1, fun h => absurd h (single?_kinds hc).2.1⟩
  · refine ⟨fun h => ?_, fun _ => ⟨hc, rfl⟩⟩
    unfold afterSlash at h
    split at h <;> cases h
  · refine ⟨fun _ => ⟨hc, rfl⟩, fun h => ?_⟩
    unfold afterAt at h
    repeat' split at h
    all_goals cases h
  · exact ⟨fun h => absurd h (afterDollar_kinds s).1, fun h => absurd h (afterDollar_kinds s).2⟩
  · exact ⟨fun h => absurd h (afterQuote_kinds (by decide) (by decide)),
      fun h => absurd h (afterQuote_kinds (by decide) (by decide))⟩
  · exact ⟨fun h => absurd h (afterQuote_kinds (by decide) (by decide)),
      fun h => absurd h (afterQuote_kinds (by decide) (by decide))⟩
  · refine ⟨fun h => ?_, fun h => ?_⟩ <;> cases h

theorem CutBefore.head_of_atKeyword {t : Token} {s : List Char} (h : t.CutBefore s)
    (hkind : t.kind = .atKeyword) : t.text.head? = some '@' := by
  obtain ⟨c, rest, htext, -, hnext⟩ := h
  rw [htext, ((next_kind c (rest ++ s)).1 (by rw [hnext]; exact hkind)).1]
  rfl

/-- Among firm tokens, only at-words start with an at sign. -/
theorem CutBefore.atKeyword_of_head {t : Token} {s : List Char} (h : t.CutBefore s)
    (hfirm : t.IsFirm) (hhead : t.text.head? = some '@') : t.kind = .atKeyword := by
  obtain ⟨c, rest, htext, -, hnext⟩ := h
  obtain rfl : c = '@' := by
    rw [htext] at hhead
    exact Option.some.inj hhead
  have hrest := hfirm.after_at htext hnext
  have hafter : afterAt (rest ++ s) = (t.kind, rest.length) := hnext
  unfold afterAt at hafter
  split at hafter
  · split at hafter
    · exact (Prod.mk.inj hafter).1.symm
    · exact absurd (List.length_eq_zero_iff.1 (Prod.mk.inj hafter).2.symm) hrest
  · exact absurd (List.length_eq_zero_iff.1 (Prod.mk.inj hafter).2.symm) hrest

/-- A comment goes up to its closing mark, or to the end. -/
theorem CutBefore.comment {t : Token} {s : List Char} (h : t.CutBefore s)
    (hcomment : t.kind = .comment) :
    ∃ rest, t.text = '/' :: '*' :: rest ∧ commentLength (rest ++ s) = rest.length := by
  obtain ⟨c, rest, htext, -, hnext⟩ := h
  obtain ⟨rfl, heq⟩ := (next_kind c (rest ++ s)).2 (by rw [hnext]; exact hcomment)
  rw [heq] at hnext
  unfold afterSlash at hnext
  split at hnext
  · next more hmore =>
    obtain ⟨-, hlength⟩ := Prod.mk.inj hnext
    cases rest with
    | nil => cases hlength
    | cons d inner =>
      obtain ⟨rfl, rfl⟩ := List.cons.inj hmore
      exact ⟨inner, htext, Nat.succ.inj hlength⟩
  · rw [hcomment] at hnext
    cases (Prod.mk.inj hnext).1

/-! ## Runs of tokens -/

theorem commentLength_le (s : List Char) : commentLength s ≤ s.length := by
  fun_induction commentLength s with
  | case1 => exact Nat.le_refl 0
  | case2 rest => simp
  | case3 c rest _ ih => simpa using ih

theorem stringLength_le (quote : Char) (s : List Char) : (stringLength quote s).2 ≤ s.length := by
  fun_induction stringLength quote s with
  | case1 | case2 | case3 | case5 | case6 => simp
  | case4 c rest hline closed n heq ih =>
    rw [heq] at ih
    simpa using ih
  | case7 c rest hone htwo hquote hline closed n heq ih =>
    rw [heq] at ih
    simpa using ih

theorem afterDollar_le (s : List Char) : (afterDollar s).2 ≤ s.length := by
  unfold afterDollar
  split
  · next rest =>
    split
    · next hclosed =>
      have hlt : (rest.takeWhile (· != '\x7d')).length < rest.length := by
        refine Nat.lt_of_le_of_ne (List.takeWhile_sublist _).length_le ?_
        intro hlength
        have hall : ((rest ++ []).takeWhile (· != '\x7d')).length = rest.length := by
          rwa [List.append_nil]
        simpa using (takeWhile_stops_iff.1 hall).1 '\x7d' (List.contains_iff_mem.1 hclosed)
      simp only [List.length_cons]
      omega
    · exact Nat.le_refl _
  · exact (List.takeWhile_sublist _).length_le

/-- A token takes no more than there is. -/
theorem next_le (c : Char) (s : List Char) : (next c s).2 ≤ s.length := by
  rcases next_cases c with ⟨kind, hc, heq⟩ | ⟨hc, heq⟩ | ⟨hc, heq⟩ | ⟨-, heq⟩ | ⟨-, heq⟩ |
    ⟨-, heq⟩ | ⟨-, heq⟩
  all_goals rw [heq]
  · exact Nat.zero_le _
  · unfold afterSlash
    split
    · exact Nat.succ_le_succ (commentLength_le _)
    · exact Nat.zero_le _
  · unfold afterAt
    repeat' split
    · exact Nat.succ_le_succ (List.takeWhile_sublist _).length_le
    · exact Nat.zero_le _
    · exact Nat.zero_le _
  · exact afterDollar_le s
  · exact stringLength_le c s
  · exact stringLength_le c s
  · exact (List.takeWhile_sublist _).length_le

/-- A token that is scanned was cut off in front of the rest; without a gap, it starts the text. -/
theorem scanFrom_cons {o : Nat} {s : List Char} {t : Token} {rest : List Token}
    (h : scanFrom o s = t :: rest) :
    ∃ tail, t.CutBefore tail ∧ scanFrom t.stop tail = rest ∧ o ≤ t.start ∧
      (¬ o < t.start → s = t.text ++ tail) := by
  fun_induction scanFrom o s with
  | case1 => cases h
  | case2 o c more hgap ih =>
    obtain ⟨tail, hcut, hrest, hstart, -⟩ := ih h
    have hpos := Char.utf8Size_pos c
    exact ⟨tail, hcut, hrest, by omega, fun hno => by omega⟩
  | case3 o c more hgap kind count hnext text stop ih =>
    obtain ⟨rfl, hrest⟩ := List.cons.inj h
    have hlength : (more.take count).length = count := by
      rw [List.length_take]
      have hle := next_le c more
      rw [hnext] at hle
      exact Nat.min_eq_left hle
    refine ⟨more.drop count, ⟨c, more.take count, rfl, by simpa using hgap, ?_⟩, hrest,
      Nat.le_refl o, fun _ => ?_⟩
    · rw [List.take_append_drop, hnext, hlength]
    · show c :: more = c :: more.take count ++ more.drop count
      rw [List.cons_append, List.take_append_drop]

/-- In front of the next token, the token stays what it is, unless there is a gap. -/
def Meets (t : Token) : List Token → Prop
  | [] => True
  | u :: _ => ¬ t.stop < u.start → ∃ tail, t.CutBefore (u.text ++ tail)

/-- Tokens that can be written again. -/
def Run : List Token → Prop
  | [] => True
  | t :: rest => (t.IsFirm ∧ ∃ tail, t.CutBefore tail) ∧ t.Meets rest ∧ Run rest

theorem run_append {ts us : List Token} (h : Run (ts ++ us)) : Run ts ∧ Run us := by
  induction ts with
  | nil => exact ⟨trivial, h⟩
  | cons t rest ih =>
    obtain ⟨hself, hmeets, hrest⟩ := h
    refine ⟨⟨hself, ?_, (ih hrest).1⟩, (ih hrest).2⟩
    cases rest with
    | nil => trivial
    | cons u more => exact hmeets

theorem Run.part {ts us : List Token} (h : Run ts) (hpart : us <:+: ts) : Run us := by
  obtain ⟨before, after, rfl⟩ := hpart
  exact (run_append (run_append h).1).2

theorem Run.of_mem {ts : List Token} (h : Run ts) {t : Token} (ht : t ∈ ts) :
    t.IsFirm ∧ ∃ tail, t.CutBefore tail := by
  induction ts with
  | nil => cases ht
  | cons u rest ih =>
    rcases List.mem_cons.1 ht with rfl | hrest
    · exact h.1
    · exact ih h.2.2 hrest

theorem run_scanFrom {o : Nat} {s : List Char} (h : ∀ t ∈ scanFrom o s, t.IsFirm) :
    Run (scanFrom o s) := by
  generalize hts : scanFrom o s = ts at h ⊢
  induction ts generalizing o s with
  | nil => trivial
  | cons t rest ih =>
    obtain ⟨tail, hcut, hrest, -, -⟩ := scanFrom_cons hts
    refine ⟨⟨h t List.mem_cons_self, tail, hcut⟩, ?_,
      ih hrest (fun u hu => h u (List.mem_cons_of_mem t hu))⟩
    cases rest with
    | nil => trivial
    | cons u more =>
      intro hgap
      obtain ⟨after, -, -, -, htail⟩ := scanFrom_cons hrest
      exact ⟨after, htail hgap ▸ hcut⟩

end Token

end Theming.Sheet
