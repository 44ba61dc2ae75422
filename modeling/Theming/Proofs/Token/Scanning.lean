import Theming.Token.Lexeme

set_option autoImplicit false

/-! # Scanning

A lexeme depends on nothing behind it (`next_take`), so what a text is cut into stays the same when
the text ends earlier or starts later at a lexeme (`Scanned.left`, `Scanned.right`). It does not go
on into a text that starts apart (`next_append`), so that such texts are cut one after the other
(`Scanned.append`). -/

namespace Theming.Lexeme

/-! ## Lexemes of a text -/

@[simp] theorem scan_nil : scan [] = [] := by
  rw [scan]

theorem scan_cons (c : Char) (rest : List Char) :
    scan (c :: rest) =
      ⟨(next c rest).1, c :: rest.take (next c rest).2⟩ :: scan (rest.drop (next c rest).2) := by
  rw [scan]

theorem join_cons (l : Lexeme) (ls : List Lexeme) : join (l :: ls) = l.text ++ join ls :=
  List.flatMap_cons

theorem join_append (a b : List Lexeme) : join (a ++ b) = join a ++ join b :=
  List.flatMap_append

/-! ## Earlier ends -/

theorem isNameChar_of_start {c : Char} (h : isNameStart c = true) : isNameChar c = true := by
  unfold isNameStart at h
  unfold isNameChar Char.isAlphanum
  rcases Bool.or_eq_true_iff.1 h with halpha | hunderscore
  · simp [halpha]
  · simp [hunderscore]

/-- A name character makes a dotted name longer. -/
theorem dottedLength_pos {s : List Char} (h : s.head?.any isNameChar = true) :
    0 < dottedLength s := by
  cases s with
  | nil => cases h
  | cons c rest =>
    have hname : isNameChar c = true := h
    rw [dottedLength, if_pos hname]
    exact Nat.succ_pos _

theorem head?_take_any {p : Char → Bool} {s : List Char} {n : Nat}
    (h : (s.take n).head?.any p = true) : s.head?.any p = true := by
  cases n with
  | zero => cases h
  | succ n =>
    cases s with
    | nil => cases h
    | cons c rest => exact h

/-- A dotted name ends before what is behind it. -/
theorem dottedLength_take : ∀ {s : List Char} {n : Nat}, dottedLength s ≤ n →
    dottedLength (s.take n) = dottedLength s
  | [], n, _ => by rw [List.take_nil]
  | c :: rest, 0, h => by
    rw [List.take_zero, Nat.le_zero.1 h]
    rfl
  | c :: rest, n + 1, h => by
    rw [List.take_succ_cons]
    unfold dottedLength at h ⊢
    by_cases hname : isNameChar c = true
    · rw [if_pos hname] at h ⊢
      rw [if_pos hname, dottedLength_take (Nat.le_of_succ_le_succ h)]
    rw [if_neg hname] at h ⊢
    rw [if_neg hname]
    by_cases hpoint : (c = '.' && rest.head?.any isNameChar) = true
    · rw [if_pos hpoint] at h ⊢
      -- The character behind the point is part of the name.
      have hshort := dottedLength_take (Nat.le_of_succ_le_succ h)
      have hpos := dottedLength_pos (Bool.and_eq_true_iff.1 hpoint).2
      have hpoint' : (c = '.' && (rest.take n).head?.any isNameChar) = true := by
        cases n with
        | zero => omega
        | succ n => cases rest <;> exact hpoint
      rw [if_pos hpoint', hshort]
    · have hpoint' : ¬ (c = '.' && (rest.take n).head?.any isNameChar) = true := by
        intro htrue
        obtain ⟨hc, hhead⟩ := Bool.and_eq_true_iff.1 htrue
        exact hpoint (Bool.and_eq_true_iff.2 ⟨hc, head?_take_any hhead⟩)
      rw [if_neg hpoint, if_neg hpoint']

theorem takeWhile_take {p : Char → Bool} {s : List Char} {n : Nat}
    (h : (s.takeWhile p).length ≤ n) : (s.take n).takeWhile p = s.takeWhile p := by
  rw [← List.take_takeWhile, List.take_of_length_le h]

theorem contains_take {c : Char} {s : List Char} {n : Nat} (hs : s.contains c = true)
    (h : (s.takeWhile (· != c)).length < n) : (s.take n).contains c = true := by
  induction s generalizing n with
  | nil => cases hs
  | cons d rest ih =>
    cases n with
    | zero => omega
    | succ n =>
      rw [List.take_succ_cons, List.contains_cons]
      rw [List.contains_cons] at hs
      by_cases hd : d = c
      · simp [hd]
      · have hne : (d != c) = true := by simp [hd]
        have hcd : (c == d) = false := by simp [Ne.symm hd]
        rw [List.takeWhile_cons, if_pos hne, List.length_cons] at h
        rw [hcd, Bool.false_or] at hs ⊢
        exact ih hs (by omega)

theorem afterDollar_brace (rest : List Char) :
    afterDollar ('\x7b' :: rest) =
      if rest.contains '\x7d' then (.braced, (rest.takeWhile (· != '\x7d')).length + 2)
      else (.other, rest.length + 1) := rfl

theorem afterDollar_of_ne {c : Char} (hc : c ≠ '\x7b') (rest : List Char) :
    afterDollar (c :: rest) =
      if isNameStart c then (.reference, dottedLength (c :: rest)) else (.other, 0) := by
  unfold afterDollar
  split
  · next heq => exact absurd (List.cons.inj heq).1 hc
  · next heq =>
    obtain ⟨rfl, rfl⟩ := List.cons.inj heq
    rfl
  · next heq => cases heq

theorem afterDollar_take {s : List Char} {n : Nat} (h : (afterDollar s).2 ≤ n) :
    afterDollar (s.take n) = afterDollar s := by
  cases s with
  | nil => rw [List.take_nil]
  | cons c rest =>
    by_cases hc : c = '\x7b'
    · subst hc
      rw [afterDollar_brace] at h ⊢
      cases n with
      | zero =>
        split at h <;> simp at h
      | succ n =>
        rw [List.take_succ_cons, afterDollar_brace]
        by_cases hclosed : rest.contains '\x7d' = true
        · rw [if_pos hclosed] at h ⊢
          have hn : (rest.takeWhile (· != '\x7d')).length < n := by
            simp only at h
            omega
          rw [if_pos (contains_take hclosed hn), takeWhile_take (Nat.le_of_lt hn)]
        · -- What is left is one lexeme.
          rw [if_neg hclosed] at h
          rw [List.take_of_length_le (Nat.le_of_succ_le_succ h)]
    · cases n with
      | zero =>
        rw [afterDollar_of_ne hc] at h ⊢
        split at h
        · next hstart =>
          have hlong : 0 < dottedLength (c :: rest) := dottedLength_pos (isNameChar_of_start hstart)
          simp only at h
          omega
        · next hstart =>
          rw [if_neg hstart]
          rfl
      | succ n =>
        rw [List.take_succ_cons, afterDollar_of_ne hc, afterDollar_of_ne hc]
        rw [afterDollar_of_ne hc] at h
        split
        · next hstart =>
          rw [if_pos hstart] at h
          rw [← List.take_succ_cons, dottedLength_take h]
        · rfl

/-- **A lexeme depends on nothing behind it.** -/
theorem next_take {c : Char} {rest : List Char} {n : Nat} (h : (next c rest).2 ≤ n) :
    next c (rest.take n) = next c rest := by
  unfold next at h ⊢
  split
  · next hdollar =>
    rw [if_pos hdollar] at h
    exact afterDollar_take h
  · next hdollar =>
    rw [if_neg hdollar] at h
    split
    · rfl
    · next hopening =>
      rw [if_neg hopening] at h
      split
      · rfl
      · next hclosing =>
        rw [if_neg hclosing] at h
        split
        · rfl
        · next hcomma =>
          rw [if_neg hcomma] at h
          split
          · next hname =>
            rw [if_pos hname] at h
            rw [takeWhile_take h]
          · next hname =>
            rw [if_neg hname] at h
            rw [takeWhile_take h]

/-! ## Parts of a scanned text -/

/-- Whether lexemes are what their text is cut into. -/
def Scanned (ls : List Lexeme) : Prop := scan (join ls) = ls

theorem scanned_scan (s : List Char) : Scanned (scan s) := by
  rw [Scanned, join_scan]

/-- The first of the lexemes of a text. -/
theorem Scanned.uncons {l : Lexeme} {ls : List Lexeme} (h : Scanned (l :: ls)) :
    ∃ c rest, join (l :: ls) = c :: rest ∧ l.kind = (next c rest).1 ∧
      l.text = c :: rest.take (next c rest).2 ∧ join ls = rest.drop (next c rest).2 ∧
      Scanned ls := by
  rw [Scanned] at h
  cases htext : join (l :: ls) with
  | nil =>
    rw [htext, scan_nil] at h
    cases h
  | cons c rest =>
    rw [htext, scan_cons] at h
    obtain ⟨hl, hls⟩ := List.cons.inj h
    have hjoin : join ls = rest.drop (next c rest).2 := by rw [← hls, join_scan]
    refine ⟨c, rest, rfl, ?_, ?_, hjoin, ?_⟩
    · rw [← hl]
    · rw [← hl]
    · rw [Scanned, hjoin]
      exact hls

theorem Scanned.right {a b : List Lexeme} (h : Scanned (a ++ b)) : Scanned b := by
  induction a with
  | nil => exact h
  | cons l a ih =>
    obtain ⟨_, _, _, _, _, _, hrest⟩ := Scanned.uncons h
    exact ih hrest

/-- **A text that ends with a lexeme is cut as before.** -/
theorem Scanned.left {a b : List Lexeme} (h : Scanned (a ++ b)) : Scanned a := by
  induction a with
  | nil => exact scan_nil
  | cons l a ih =>
    obtain ⟨c, rest, hjoin, hkind, htext, hdrop, hrest⟩ := Scanned.uncons h
    have ha : Scanned a := ih hrest
    -- The shorter text goes on as far as the lexemes do.
    have hbehind : (rest.drop (next c rest).2).take (join a).length = join a := by
      have hab : join (a ++ b) = rest.drop (next c rest).2 := hdrop
      rw [← hab, join_append, List.take_left]
    have hshort : join (l :: a) = c :: rest.take ((next c rest).2 + (join a).length) := by
      rw [join_cons, htext, List.take_add, hbehind]
      rfl
    have hnext : next c (rest.take ((next c rest).2 + (join a).length)) = next c rest :=
      next_take (Nat.le_add_right _ _)
    have htake : (rest.take ((next c rest).2 + (join a).length)).take (next c rest).2 =
        rest.take (next c rest).2 := by
      rw [List.take_take, Nat.min_eq_left (Nat.le_add_right _ _)]
    have hdrop' : (rest.take ((next c rest).2 + (join a).length)).drop (next c rest).2 =
        join a := by
      rw [List.drop_take, Nat.add_sub_cancel_left, hbehind]
    rw [Scanned, hshort, scan_cons, hnext, htake, hdrop', ← hkind, ← htext, ha]

theorem Scanned.tail {l : Lexeme} {ls : List Lexeme} (h : Scanned (l :: ls)) : Scanned ls := by
  have hsplit : Scanned ([l] ++ ls) := h
  exact hsplit.right

theorem Scanned.suffix {a ls : List Lexeme} (h : Scanned ls) (ha : a <:+ ls) : Scanned a := by
  obtain ⟨before, rfl⟩ := ha
  exact Scanned.right h

/-! ## Texts put behind -/

/-- Whether a text starts so that no name or call before it goes on into it. -/
def StartsApart (s : List Char) : Prop :=
  s.head?.any (fun c => isNameChar c || c == '.' || c == '(') = false

instance : DecidablePred StartsApart := fun _ => inferInstanceAs (Decidable (_ = false))

theorem startsApart_nil : StartsApart [] := rfl

theorem StartsApart.head {c : Char} {s : List Char} (h : StartsApart (c :: s)) :
    isNameChar c = false ∧ c ≠ '.' ∧ c ≠ '(' := by
  simp only [StartsApart, List.head?_cons, Option.any_some, Bool.or_eq_false_iff,
    beq_eq_false_iff_ne] at h
  exact ⟨h.1.1, h.1.2, h.2⟩

theorem StartsApart.head_any {s : List Char} (h : StartsApart s) :
    s.head?.any isNameChar = false := by
  cases s with
  | nil => rfl
  | cons c s => exact h.head.1

theorem takeWhile_append_left {p : Char → Bool} {s t : List Char}
    (h : t.head?.any p = false ∨ (s.takeWhile p).length < s.length) :
    (s ++ t).takeWhile p = s.takeWhile p := by
  rw [List.takeWhile_append]
  split
  · next hall =>
    have hnone : t.takeWhile p = [] := by
      rcases h with h | h
      · cases t with
        | nil => rfl
        | cons c t =>
          have hc : ¬ p c = true := Bool.eq_false_iff.1 h
          rw [List.takeWhile_cons, if_neg hc]
      · omega
    rw [hnone, List.append_nil]
    exact ((List.takeWhile_prefix p).eq_of_length hall).symm
  · rfl

theorem dottedLength_append {s t : List Char} (ht : StartsApart t) :
    dottedLength (s ++ t) = dottedLength s := by
  induction s with
  | nil =>
    cases t with
    | nil => rfl
    | cons c t =>
      obtain ⟨hname, hpoint, _⟩ := ht.head
      simp [dottedLength, hname, hpoint]
  | cons c s ih =>
    have hhead : (s ++ t).head?.any isNameChar = s.head?.any isNameChar := by
      cases s with
      | nil => exact ht.head_any
      | cons d s => rfl
    rw [List.cons_append, dottedLength, dottedLength, ih, hhead]

theorem dottedLength_le : ∀ s : List Char, dottedLength s ≤ s.length
  | [] => Nat.le_refl 0
  | c :: s => by
    have hle := dottedLength_le s
    unfold dottedLength
    split
    · exact Nat.succ_le_succ hle
    · split
      · exact Nat.succ_le_succ hle
      · exact Nat.zero_le _

theorem takeWhile_lt_of_contains {c : Char} {s : List Char} (h : s.contains c = true) :
    (s.takeWhile (· != c)).length < s.length := by
  have hmem : c ∈ s := List.contains_iff_mem.1 h
  have hle := (List.takeWhile_prefix (p := (· != c)) (l := s)).length_le
  rcases Nat.lt_or_eq_of_le hle with hlt | heq
  · exact hlt
  · have hall := (List.takeWhile_prefix (p := (· != c)) (l := s)).eq_of_length heq
    rw [← hall] at hmem
    have := List.all_takeWhile (p := (· != c)) (l := s)
    simp only [List.all_eq_true] at this
    simpa using this c hmem

theorem next_le (c : Char) (rest : List Char) : (next c rest).2 ≤ rest.length := by
  unfold next
  split
  · unfold afterDollar
    split
    · next s =>
      split
      · next hclosed =>
        have hlt := takeWhile_lt_of_contains hclosed
        simp only [List.length_cons]
        omega
      · exact Nat.le_refl _
    · next c s _ =>
      split
      · exact dottedLength_le (c :: s)
      · exact Nat.zero_le _
    · exact Nat.zero_le _
  · split
    · exact Nat.zero_le _
    · split
      · exact Nat.zero_le _
      · split
        · exact Nat.zero_le _
        · split
          · exact (List.takeWhile_prefix _).length_le
          · exact (List.takeWhile_prefix _).length_le

/-- **A lexeme does not go on into a text that starts apart**, unless it is plain text and ends
    where the text is put. -/
theorem next_append {c : Char} {s t : List Char} (ht : StartsApart t)
    (h : (next c s).1 ≠ .other ∨ (next c s).2 < s.length) : next c (s ++ t) = next c s := by
  unfold next at h ⊢
  split
  · next hdollar =>
    rw [if_pos hdollar] at h
    cases s with
    | nil =>
      rcases h with h | h
      · exact absurd rfl h
      · exact absurd h (Nat.lt_irrefl 0)
    | cons d s =>
      by_cases hd : d = '\x7b'
      · subst hd
        rw [List.cons_append, afterDollar_brace, afterDollar_brace]
        rw [afterDollar_brace] at h
        by_cases hclosed : s.contains '\x7d' = true
        · have hclosed' : (s ++ t).contains '\x7d' = true := by
            rw [List.contains_iff_mem] at hclosed ⊢
            exact List.mem_append_left t hclosed
          rw [if_pos hclosed, if_pos hclosed',
            takeWhile_append_left (Or.inr (takeWhile_lt_of_contains hclosed))]
        · -- An open brace takes all that is there.
          rw [if_neg hclosed] at h
          rcases h with h | h
          · exact absurd rfl h
          · exact absurd h (Nat.lt_irrefl _)
      · rw [List.cons_append, afterDollar_of_ne hd, afterDollar_of_ne hd, ← List.cons_append,
          dottedLength_append ht]
  · next hdollar =>
    rw [if_neg hdollar] at h
    split
    · rfl
    · next hopening =>
      rw [if_neg hopening] at h
      split
      · rfl
      · next hclosing =>
        rw [if_neg hclosing] at h
        split
        · rfl
        · next hcomma =>
          rw [if_neg hcomma] at h
          split
          · rw [takeWhile_append_left (Or.inl ht.head_any)]
          · next hname =>
            rw [if_neg hname] at h
            rcases h with h | h
            · exact absurd rfl h
            · rw [takeWhile_append_left (Or.inr h)]

theorem join_ne_nil {l : Lexeme} {ls : List Lexeme} (h : Scanned (l :: ls)) :
    join (l :: ls) ≠ [] := by
  obtain ⟨c, rest, hjoin, _⟩ := h.uncons
  rw [hjoin]
  exact List.cons_ne_nil c rest

/-- **A text that starts apart is cut on its own**, unless the text before it ends with plain
    text. -/
theorem Scanned.append {ls : List Lexeme} {t : List Char} (h : Scanned ls)
    (hlast : ∀ l, ls.getLast? = some l → l.kind ≠ .other) (ht : StartsApart t) :
    scan (join ls ++ t) = ls ++ scan t := by
  induction ls with
  | nil => rfl
  | cons l ls ih =>
    obtain ⟨c, rest, hjoin, hkind, htext, hdrop, hscanned⟩ := h.uncons
    have hle := next_le c rest
    have hstays : (next c rest).1 ≠ .other ∨ (next c rest).2 < rest.length := by
      cases ls with
      | nil =>
        rw [← hkind]
        exact Or.inl (hlast l rfl)
      | cons l' ls =>
        have hlong := List.length_pos_iff.2 (join_ne_nil hscanned)
        rw [hdrop, List.length_drop] at hlong
        exact Or.inr (by omega)
    have hlast' : ∀ l', ls.getLast? = some l' → l'.kind ≠ .other := by
      intro l' hl'
      apply hlast
      rw [List.getLast?_cons, hl']
      rfl
    rw [hjoin, List.cons_append, scan_cons, next_append ht hstays,
      List.take_append_of_le_length hle, List.drop_append_of_le_length hle, ← hdrop,
      ih hscanned hlast', ← hkind, ← htext]
    rfl

end Theming.Lexeme
