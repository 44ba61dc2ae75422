import Mathlib.Data.List.Pairwise
import Theming.Proofs.Sheet.Spans
import Theming.Proofs.Token.Scanning

set_option autoImplicit false

/-! # Interpolations

A reference in braces is one lexeme of a value wherever it stands, unless an earlier one goes over
it (`Lexeme.exists_braced`). In a template it is one token only if no token goes over its dollar
sign. Inside comments, strings and other interpolations this is meant. But a dollar sign is also a
character of words, so a word in front of the reference takes it along, and the braces that are left
are those of a block (`Token.CutBefore.over_dollar`).

The main result is `interpolation_iff`, and `interpolation_taken_apart` shows a reference that is
taken apart. -/

namespace Theming

/-- The spelling of a reference in braces. -/
def bracedText (inside : List Char) : List Char := '$' :: '\x7b' :: (inside ++ ['\x7d'])

theorem length_takeWhile_brace {inside : List Char} (h : '\x7d' ∉ inside) (rest : List Char) :
    ((inside ++ '\x7d' :: rest).takeWhile (· != '\x7d')).length = inside.length := by
  rw [List.takeWhile_append_of_pos (fun c hc => by
    have hne : c ≠ '\x7d' := fun heq => h (heq ▸ hc)
    simpa using hne)]
  simp

/-! ## In values -/

namespace Lexeme

variable {c : Char} {more tail inside : List Char}

/-- Only a reference in braces goes over a dollar sign. -/
theorem braced_of_over (hclosed : '\x7d' ∈ tail)
    (hover : more.length < (next c (more ++ '$' :: tail)).2) :
    (next c (more ++ '$' :: tail)).1 = .braced := by
  have hends : ∀ p : Char → Bool, p '$' = false →
      ((more ++ '$' :: tail).takeWhile p).length ≤ more.length := by
    intro p hp
    rw [takeWhile_append_left (Or.inl (by rw [List.head?_cons, Option.any_some, hp]))]
    exact (List.takeWhile_prefix p).length_le
  unfold next at hover ⊢
  by_cases hdollar : c = '$'
  · rw [if_pos hdollar] at hover ⊢
    cases more with
    | nil =>
      have hnone : afterDollar ('$' :: tail) = (.other, 0) := by
        rw [afterDollar_of_ne (by decide), if_neg (by decide)]
      rw [List.nil_append, hnone] at hover
      cases hover
    | cons d more =>
      by_cases hd : d = '\x7b'
      · subst hd
        have hcontains : (more ++ '$' :: tail).contains '\x7d' = true := by simp [hclosed]
        rw [List.cons_append, afterDollar_brace, if_pos hcontains]
      · -- A name ends in front of the dollar sign.
        rw [List.cons_append, afterDollar_of_ne hd] at hover
        split at hover
        · rw [← List.cons_append, dottedLength_append (rfl : StartsApart ('$' :: tail))] at hover
          exact absurd hover (Nat.not_lt.2 (dottedLength_le _))
        · cases hover
  · rw [if_neg hdollar] at hover
    repeat' split at hover
    · cases hover
    · cases hover
    · cases hover
    · exact absurd hover (Nat.not_lt.2 (hends isNameChar rfl))
    · exact absurd hover (Nat.not_lt.2 (hends isOther rfl))

theorem next_bracedText (hinside : '\x7d' ∉ inside) (rest : List Char) :
    next '$' ('\x7b' :: (inside ++ '\x7d' :: rest)) = (.braced, inside.length + 2) := by
  have hcontains : (inside ++ '\x7d' :: rest).contains '\x7d' = true := by simp
  rw [next, if_pos rfl, afterDollar_brace, if_pos hcontains, length_takeWhile_brace hinside]

/-- At every reference in braces there is a lexeme that is one: this reference, or one that starts
    before it and goes over it. -/
theorem exists_braced (hinside : '\x7d' ∉ inside) (front back : List Char) :
    ∃ ls l ls', scan (front ++ (bracedText inside ++ back)) = ls ++ l :: ls' ∧ l.kind = .braced ∧
      join ls <+: front ∧ front.length < (join ls ++ l.text).length ∧
      (join ls = front → l.text = bracedText inside) := by
  generalize htext : front ++ (bracedText inside ++ back) = s
  fun_induction scan s generalizing front with
  | case1 => simp [bracedText] at htext
  | case2 c rest kind count hnext ih =>
    have hshape : bracedText inside ++ back = '$' :: '\x7b' :: (inside ++ '\x7d' :: back) := by
      simp [bracedText]
    rw [hshape] at htext
    cases front with
    | nil =>
      obtain ⟨rfl, rfl⟩ := List.cons.inj htext
      rw [next_bracedText hinside] at hnext
      obtain ⟨rfl, rfl⟩ := Prod.mk.inj hnext
      have htake : '$' :: ('\x7b' :: (inside ++ '\x7d' :: back)).take (inside.length + 2) =
          bracedText inside := by
        rw [List.take_succ_cons, List.take_length_add_append]
        rfl
      exact ⟨[], _, _, rfl, rfl, List.prefix_rfl, by simp [join], fun _ => htake⟩
    | cons d more =>
      rw [List.cons_append] at htext
      obtain ⟨rfl, rfl⟩ := List.cons.inj htext
      by_cases hle : count ≤ more.length
      · -- The lexeme ends in front of the dollar sign.
        obtain ⟨u, v, rfl, rfl⟩ : ∃ u v, more = u ++ v ∧ u.length = count :=
          ⟨more.take count, more.drop count, (List.take_append_drop count more).symm,
            by rw [List.length_take, Nat.min_eq_left hle]⟩
        rw [List.append_assoc, ← hshape] at hnext ih ⊢
        rw [List.drop_left] at ih ⊢
        rw [List.take_left]
        obtain ⟨ls, l, ls', hscan, hkind, hprefix, hover, hat⟩ := ih v rfl
        refine ⟨⟨kind, d :: u⟩ :: ls, l, ls', by rw [hscan]; rfl, hkind, ?_, ?_, ?_⟩
        · exact (List.prefix_append_right_inj (d :: u)).2 hprefix
        · rw [join_cons, List.append_assoc]
          simp only [List.length_append, List.length_cons] at hover ⊢
          omega
        · intro hjoin
          have hrest : (d :: u) ++ join ls = (d :: u) ++ v := hjoin
          exact hat (List.append_cancel_left hrest)
      · have hcount := next_le d (more ++ '$' :: '\x7b' :: (inside ++ '\x7d' :: back))
        have hkind : (next d (more ++ '$' :: '\x7b' :: (inside ++ '\x7d' :: back))).1 = .braced :=
          braced_of_over (by simp) (by rw [hnext]; exact Nat.lt_of_not_le hle)
        rw [hnext] at hcount hkind
        refine ⟨[], _, _, rfl, hkind, List.nil_prefix, ?_, fun h => by cases h⟩
        simp only [join, List.flatMap_nil, List.nil_append, List.length_cons, List.length_take]
        simp only at hcount
        omega

end Lexeme

/-! ## In templates -/

namespace Sheet

namespace Token

open Text (byteLength)

/-- Whether a token has started before a byte offset and goes over it. -/
def Covers (t : Token) (o : Nat) : Prop := t.start < o ∧ o < t.stop

/-- Whether a token is a word that starts with a quote: a string that is never closed. -/
def IsOpenString (t : Token) : Prop :=
  t.kind = .word ∧ (t.text.head? = some '"' ∨ t.text.head?.map Char.toNat = some 39)

/-- Whether two tokens are the same or do not overlap. -/
def Apart (t u : Token) : Prop := t = u ∨ t.stop ≤ u.start ∨ u.stop ≤ t.start

/-- Whether a token may hold a reference in braces. -/
def Holds (t : Token) : Prop :=
  t.kind = .comment ∨ t.kind = .doubleQuoted ∨ t.kind = .singleQuoted ∨ t.kind = .interpolation

instance (t : Token) (o : Nat) : Decidable (t.Covers o) := inferInstanceAs (Decidable (_ ∧ _))

instance (t : Token) : Decidable t.Holds := inferInstanceAs (Decidable (_ ∨ _ ∨ _ ∨ _))

section Places

variable {o : Nat} {s before rest : List Char} {c : Char} {ts : List Token}

/-- Two tokens of a text are the same or do not overlap. -/
theorem Laid.apart (h : Laid o s ts) {t u : Token} (ht : t ∈ ts) (hu : u ∈ ts) : t.Apart u :=
  List.Pairwise.forall_of_forall_of_flip (fun t _ => (Or.inl rfl : t.Apart t))
    (h.pairwise.imp (fun hab => (Or.inr (Or.inl hab) : Apart _ _)))
    (h.pairwise.imp (fun hab => (Or.inr (Or.inr hab) : Apart _ _))) ht hu

/-- A character whose first byte lies in a part of a text stands in that part. -/
theorem exists_split {front part behind : List Char}
    (htext : before ++ c :: rest = front ++ (part ++ behind))
    (hstart : byteLength front ≤ byteLength before)
    (hstop : byteLength before < byteLength front + byteLength part) :
    ∃ u v, before = front ++ u ∧ part = u ++ c :: v ∧ rest = v ++ behind := by
  rcases List.append_eq_append_iff.1 htext with ⟨u, rfl, hpart⟩ | ⟨u, rfl, hpart⟩
  · -- The part starts no later than the character.
    rw [Text.byteLength_append] at hstart hstop
    obtain rfl : u = [] := by
      by_contra hne
      have hpos := Text.byteLength_pos hne
      omega
    rw [List.nil_append] at hpart
    cases part with
    | nil => exact absurd hstop (Nat.lt_irrefl _)
    | cons d v =>
      obtain ⟨rfl, rfl⟩ := List.cons.inj hpart
      exact ⟨[], v, by simp, rfl, rfl⟩
  · rw [Text.byteLength_append] at hstop
    rcases List.append_eq_append_iff.1 hpart with ⟨w, rfl, -⟩ | ⟨w, rfl, hrest⟩
    · rw [Text.byteLength_append] at hstop
      omega
    · cases w with
      | nil =>
        rw [List.append_nil] at hstop
        omega
      | cons d v =>
        obtain ⟨rfl, rfl⟩ := List.cons.inj hrest
        exact ⟨u, v, rfl, rfl, rfl⟩

/-- A character that is no gap stands in a token. -/
theorem Laid.exists_over (h : Laid o s ts) (htext : s = before ++ c :: rest)
    (hc : isGap c = false) :
    ∃ t ∈ ts, ∃ u v tail, t.text = u ++ c :: v ∧ rest = v ++ tail ∧ t.CutBefore tail ∧
      t.start + byteLength u = o + byteLength before ∧
      t.stop = t.start + byteLength t.text := by
  have hover : ∃ t ∈ ts, t.start ≤ o + byteLength before ∧ o + byteLength before < t.stop := by
    by_contra hnone
    have hsize : byteLength before < byteLength s := by
      rw [htext, Text.byteLength_append, byteLength]
      have hpos := c.utf8Size_pos
      omega
    obtain ⟨front, d, behind, htext', hfront, hd⟩ := h.exists_gap hsize (by simpa using hnone)
    have hsame : before ++ c :: rest = front ++ ([d] ++ behind) := by rw [← htext, htext']; rfl
    obtain ⟨u, v, -, hsingle, -⟩ := exists_split hsame (by omega)
      (by rw [hfront]; exact Nat.lt_add_of_pos_right (Text.byteLength_pos (List.cons_ne_nil d [])))
    have hmem : c ∈ [d] := hsingle ▸ List.mem_append_right u List.mem_cons_self
    rw [List.mem_singleton.1 hmem, hd] at hc
    cases hc
  obtain ⟨t, ht, hstart, hstop⟩ := hover
  obtain ⟨front, tail, htext', hplace, hlength, hcut⟩ := h.exists_place ht
  obtain ⟨u, v, rfl, hpart, hrest⟩ := exists_split (htext ▸ htext') (by omega) (by omega)
  refine ⟨t, ht, u, v, tail, hpart, hrest, hcut, ?_, hlength⟩
  rw [hplace, Text.byteLength_append, Nat.add_assoc]

end Places

section Dollar

variable {t : Token} {u v tail inside after : List Char}

/-- A token that starts at a reference in braces is the reference. -/
theorem CutBefore.at_dollar (h : t.CutBefore tail) (htext : t.text = '$' :: v)
    (hrest : '\x7b' :: (inside ++ '\x7d' :: after) = v ++ tail) (hinside : '\x7d' ∉ inside) :
    t.kind = .interpolation ∧ t.text = bracedText inside := by
  obtain ⟨c, more, htext', -, hnext⟩ := h
  rw [htext] at htext'
  obtain ⟨rfl, rfl⟩ := List.cons.inj htext'
  have hdollar : next '$' (v ++ tail) = (.interpolation, inside.length + 2) := by
    have hcontains : (inside ++ '\x7d' :: after).contains '\x7d' = true := by simp
    have hafter : ∀ s, next '$' s = afterDollar s := fun _ => rfl
    rw [← hrest, hafter, afterDollar, if_pos hcontains, length_takeWhile_brace hinside]
  rw [hnext] at hdollar
  obtain ⟨hkind, hlength⟩ := Prod.mk.inj hdollar
  refine ⟨hkind, ?_⟩
  have hsplit : ('\x7b' :: (inside ++ ['\x7d'])) ++ after = v ++ tail := by rw [← hrest]; simp
  rw [htext, bracedText, (List.append_inj hsplit (by simp [hlength])).1]

/-- A word that goes over a dollar sign ends there if a brace follows. -/
theorem eq_nil_of_wordChars (hword : ∀ c ∈ u ++ '$' :: v, isWordChar c = true)
    (hrest : '\x7b' :: after = v ++ tail) : v = [] := by
  cases v with
  | nil => rfl
  | cons d v =>
    obtain ⟨rfl, -⟩ := List.cons.inj hrest
    exact absurd (hword '\x7b' (by simp)) (by decide)

/-- What goes over the dollar sign of a reference in braces: a token that may hold it, a string that
    is never closed, or a word that ends there. -/
theorem CutBefore.over_dollar (h : t.CutBefore tail) (htext : t.text = u ++ '$' :: v) (hu : u ≠ [])
    (hrest : '\x7b' :: (inside ++ '\x7d' :: after) = v ++ tail) :
    t.Holds ∨ t.IsOpenString ∨ t.kind = .word ∧ v = [] := by
  obtain ⟨c, w, rfl⟩ := List.exists_cons_of_ne_nil hu
  obtain ⟨c', more, htext', -, hnext⟩ := h
  rw [htext, List.cons_append] at htext'
  obtain ⟨rfl, rfl⟩ := List.cons.inj htext'
  have hends : ((w ++ '$' :: v ++ tail).takeWhile isWordChar).length = (w ++ '$' :: v).length →
      v = [] := fun hlength =>
    eq_nil_of_wordChars (takeWhile_stops_iff.1 hlength).1 hrest
  rcases next_cases c with ⟨kind, -, heq⟩ | ⟨rfl, heq⟩ | ⟨rfl, heq⟩ | ⟨rfl, heq⟩ | ⟨rfl, heq⟩ |
    ⟨hc, heq⟩ | ⟨-, heq⟩
  all_goals rw [heq] at hnext
  · simp at hnext
  · unfold afterSlash at hnext
    split at hnext
    · exact Or.inl (Or.inl (Prod.mk.inj hnext).1.symm)
    · simp at hnext
  · -- An at-word ends in front of the dollar sign.
    have hstop : ∀ x, (((x ++ '$' :: v) ++ tail).takeWhile isKeywordChar).length ≠
        (x ++ '$' :: v).length := fun x hlength =>
      absurd ((takeWhile_stops_iff.1 hlength).1 '$' (by simp)) (by decide)
    cases w with
    | nil => cases (Prod.mk.inj hnext).2
    | cons d x =>
      rw [List.cons_append, List.cons_append, afterAt] at hnext
      split at hnext
      · exact absurd (Nat.succ.inj (Prod.mk.inj hnext).2) (hstop x)
      · cases (Prod.mk.inj hnext).2
  · cases w with
    | nil =>
      rw [List.nil_append, List.cons_append, afterDollar_of_ne (by decide)] at hnext
      obtain ⟨hkind, hlength⟩ := Prod.mk.inj hnext
      exact Or.inr (Or.inr ⟨hkind.symm, hends hlength⟩)
    | cons d x =>
      by_cases hd : d = '\x7b'
      · subst hd
        have hcontains : (x ++ '$' :: v ++ tail).contains '\x7d' = true := by
          rw [List.append_assoc, List.cons_append, ← hrest]
          simp
        rw [List.cons_append, List.cons_append, afterDollar, if_pos hcontains] at hnext
        exact Or.inl (Or.inr (Or.inr (Or.inr (Prod.mk.inj hnext).1.symm)))
      · rw [List.cons_append, List.cons_append, afterDollar_of_ne hd] at hnext
        obtain ⟨hkind, hlength⟩ := Prod.mk.inj hnext
        exact Or.inr (Or.inr ⟨hkind.symm, hends hlength⟩)
  · obtain ⟨hkind, -⟩ := Prod.mk.inj hnext
    split at hkind
    · exact Or.inl (Or.inr (Or.inl hkind.symm))
    · exact Or.inr (Or.inl ⟨hkind.symm, Or.inl (by rw [htext]; rfl)⟩)
  · obtain ⟨hkind, -⟩ := Prod.mk.inj hnext
    split at hkind
    · exact Or.inl (Or.inr (Or.inr (Or.inl hkind.symm)))
    · exact Or.inr (Or.inl ⟨hkind.symm, Or.inr (by rw [htext]; exact congrArg some hc)⟩)
  · obtain ⟨hkind, hlength⟩ := Prod.mk.inj hnext
    exact Or.inr (Or.inr ⟨hkind.symm, hends hlength⟩)

/-- An opening brace is a token by itself. -/
theorem CutBefore.eq_brace (h : t.CutBefore tail) (htext : t.text = '\x7b' :: v) :
    t.kind = .braceOpen ∧ t.text = ['\x7b'] := by
  obtain ⟨c, more, htext', -, hnext⟩ := h
  rw [htext'] at htext ⊢
  obtain ⟨rfl, rfl⟩ := List.cons.inj htext
  obtain ⟨hkind, hlength⟩ := Prod.mk.inj hnext
  rw [List.length_eq_zero_iff.1 hlength.symm]
  exact ⟨hkind.symm, rfl⟩

end Dollar

section References

variable {s before inside after : List Char} {ts : List Token}

/-- The token of a reference in braces behind some text. -/
def ofReference (before inside : List Char) : Token :=
  ⟨.interpolation, bracedText inside, byteLength before, byteLength (before ++ bracedText inside)⟩

theorem eq_of_fields {t : Token} {kind : Kind} {text : List Char} {o : Nat} (hkind : t.kind = kind)
    (htext : t.text = text) (hstart : t.start = o) (hstop : t.stop = t.start + byteLength t.text) :
    t = ⟨kind, text, o, o + byteLength text⟩ := by
  obtain ⟨_, _, _, _⟩ := t
  simp only at hkind htext hstart hstop
  rw [hkind, htext, hstop, htext, hstart]

theorem bracedText_append (inside after : List Char) :
    bracedText inside ++ after = '$' :: '\x7b' :: (inside ++ '\x7d' :: after) := by
  simp [bracedText]

/-- At a reference in braces stands its token, or a token that goes over its dollar sign. -/
theorem Laid.reference_or_covered (h : Laid 0 s ts)
    (htext : s = before ++ (bracedText inside ++ after)) (hinside : '\x7d' ∉ inside) :
    ofReference before inside ∈ ts ∨
      ∃ t ∈ ts, t.Covers (byteLength before) ∧ (t.Holds ∨ t.IsOpenString ∨
        t.kind = .word ∧ t.text.getLast? = some '$' ∧ t.stop = byteLength before + 1) := by
  rw [bracedText_append] at htext
  obtain ⟨t, ht, u, v, tail, hpart, hrest, hcut, hplace, hlength⟩ :=
    h.exists_over htext (by decide)
  by_cases hu : u = []
  · subst hu
    obtain ⟨hkind, hreference⟩ := hcut.at_dollar hpart hrest hinside
    have hstart : t.start = byteLength before := by
      simpa only [byteLength, Nat.zero_add, Nat.add_zero] using hplace
    rw [ofReference, Text.byteLength_append, ← eq_of_fields hkind hreference hstart hlength]
    exact Or.inl ht
  · rw [hpart, Text.byteLength_append] at hlength
    have hpos := Text.byteLength_pos hu
    have hdollar : byteLength ('$' :: v) = 1 + byteLength v := rfl
    refine Or.inr ⟨t, ht, ⟨by omega, by omega⟩, ?_⟩
    rcases hcut.over_dollar hpart hu hrest with hholds | hstring | ⟨hkind, rfl⟩
    · exact Or.inl hholds
    · exact Or.inr (Or.inl hstring)
    · refine Or.inr (Or.inr ⟨hkind, by rw [hpart, List.getLast?_concat], ?_⟩)
      have hnil : byteLength [] = 0 := rfl
      omega

/-- Tokens that cover the same place are the same. -/
theorem Laid.eq_of_covers (h : Laid 0 s ts) {t u : Token} {o : Nat} (ht : t ∈ ts) (hu : u ∈ ts)
    (hto : t.Covers o) (huo : u.start ≤ o ∧ o < u.stop) : t = u := by
  obtain ⟨hstart, hstop⟩ := hto
  rcases h.apart ht hu with heq | hbefore | hbehind
  · exact heq
  · omega
  · omega

/-- Where a token ends, an opening brace is a token by itself. -/
theorem Laid.brace_mem (h : Laid 0 s ts) (htext : s = before ++ '\x7b' :: after) {t : Token}
    (ht : t ∈ ts) (hstart : t.start < byteLength before) (hstop : t.stop = byteLength before) :
    (⟨.braceOpen, ['\x7b'], byteLength before, byteLength before + 1⟩ : Token) ∈ ts := by
  obtain ⟨b, hb, u, v, tail, hpart, -, hcut, hplace, hlength⟩ := h.exists_over htext (by decide)
  have hu : u = [] := by
    have hinside : byteLength u < byteLength b.text := by
      rw [hpart, Text.byteLength_append]
      exact Nat.lt_add_of_pos_right (Text.byteLength_pos (List.cons_ne_nil _ v))
    rcases h.apart ht hb with rfl | hbefore | hbehind
    · omega
    · by_contra hne
      have hpos := Text.byteLength_pos hne
      omega
    · omega
  subst hu
  obtain ⟨hkind, hsingle⟩ := hcut.eq_brace hpart
  have hplace' : b.start = byteLength before := by
    simpa only [byteLength, Nat.zero_add, Nat.add_zero] using hplace
  exact eq_of_fields hkind hsingle hplace' hlength ▸ hb

end References

end Token

open Token Text

/-- **Where a reference in braces is one token.** Outside comments, strings and other
    interpolations, it is one exactly if no word goes over its dollar sign; then its braces are no
    tokens by themselves. A word that does is a string that is never closed, or it ends with the
    dollar sign, and the brace behind it opens a block. In a value, only an earlier reference in
    braces goes over one. -/
theorem interpolation_iff {template : String} {before inside after : List Char}
    (htext : template.toList = before ++ (bracedText inside ++ after)) (hinside : '\x7d' ∉ inside)
    (houtside : ∀ t ∈ scan template, t.Covers (byteLength before) → ¬ t.Holds) :
    (ofReference before inside ∈ scan template ↔
        ∀ t ∈ scan template, t.Covers (byteLength before) → t.kind ≠ .word) ∧
      (ofReference before inside ∈ scan template →
        ∀ t ∈ scan template, t.kind = .braceOpen ∨ t.kind = .braceClose →
          t.stop ≤ byteLength before ∨ byteLength (before ++ bracedText inside) ≤ t.start) ∧
      (∀ t ∈ scan template, t.Covers (byteLength before) → t.IsOpenString ∨
        t.kind = .word ∧ t.text.getLast? = some '$' ∧
          ⟨.braceOpen, ['\x7b'], byteLength before + 1, byteLength before + 2⟩ ∈ scan template) ∧
      ∀ front back, ∃ ls l ls',
        Lexeme.scan (front ++ (bracedText inside ++ back)) = ls ++ l :: ls' ∧
        l.kind = .braced ∧ Lexeme.join ls <+: front ∧
        front.length < (Lexeme.join ls ++ l.text).length ∧
        (Lexeme.join ls = front → l.text = bracedText inside) := by
  have hlaid : Laid 0 template.toList (scan template) := laid_scanFrom 0 template.toList
  have hpos : byteLength before < byteLength (before ++ bracedText inside) := by
    rw [byteLength_append]
    exact Nat.lt_add_of_pos_right (byteLength_pos (List.cons_ne_nil _ _))
  -- The token of the reference leaves no room for another one.
  have halone : ofReference before inside ∈ scan template →
      ∀ t ∈ scan template, ¬ t.Covers (byteLength before) := by
    intro hmem t ht hcovers
    obtain rfl := hlaid.eq_of_covers ht hmem hcovers ⟨Nat.le_refl _, hpos⟩
    exact Nat.lt_irrefl _ hcovers.1
  refine ⟨⟨fun hmem t ht hcovers => absurd hcovers (halone hmem t ht), fun hfree => ?_⟩,
    fun hmem t ht hbrace => ?_, fun t ht hcovers => ?_,
    fun front back => Lexeme.exists_braced hinside front back⟩
  · rcases hlaid.reference_or_covered htext hinside with hmem | ⟨t, ht, hcovers, hcases⟩
    · exact hmem
    · rcases hcases with hholds | hstring | ⟨hword, -⟩
      · exact absurd hholds (houtside t ht hcovers)
      · exact absurd hstring.1 (hfree t ht hcovers)
      · exact absurd hword (hfree t ht hcovers)
  · rcases hlaid.apart ht hmem with rfl | happart
    · rcases hbrace with hkind | hkind <;> cases hkind
    · exact happart
  · rcases hlaid.reference_or_covered htext hinside with hmem | ⟨u, hu, hucovers, hcases⟩
    · exact absurd hcovers (halone hmem t ht)
    · obtain rfl := hlaid.eq_of_covers ht hu hcovers ⟨Nat.le_of_lt hucovers.1, hucovers.2⟩
      rcases hcases with hholds | hstring | ⟨hword, hlast, hstop⟩
      · exact absurd hholds (houtside t ht hcovers)
      · exact Or.inl hstring
      · have hsize : byteLength (before ++ ['$']) = byteLength before + 1 := byteLength_append _ _
        have hshape : template.toList =
            (before ++ ['$']) ++ '\x7b' :: (inside ++ '\x7d' :: after) := by
          rw [htext, bracedText_append]
          simp
        have hbrace := hlaid.brace_mem hshape ht
          (by rw [hsize]; exact Nat.lt_succ_of_lt hcovers.1) (by rw [hsize, hstop])
        rw [hsize] at hbrace
        exact Or.inr ⟨hword, hlast, hbrace⟩

/-- Behind a comment that holds another one, right behind an at-word. -/
theorem interpolation_iff_behind_keyword :
    ofReference "/* $\x7ba\x7d */ @b".toList ['c'] ∈ scan "/* $\x7ba\x7d */ @b$\x7bc\x7d d" :=
  (interpolation_iff (show _ = _ ++ (bracedText ['c'] ++ [' ', 'd']) by decide) (by decide)
    (by decide +kernel)).1.2 (by decide +kernel)

/-- A minus sign in front of a reference takes its dollar sign along. -/
theorem interpolation_taken_apart :
    (∀ t ∈ scan "m: -$\x7bgap\x7d", ¬ t.Holds) ∧
      ofReference "m: -".toList "gap".toList ∉ scan "m: -$\x7bgap\x7d" ∧
      ⟨.braceOpen, ['\x7b'], 5, 6⟩ ∈ scan "m: -$\x7bgap\x7d" ∧
      ⟨.braceClose, ['\x7d'], 9, 10⟩ ∈ scan "m: -$\x7bgap\x7d" := by
  decide +kernel

end Sheet

end Theming
