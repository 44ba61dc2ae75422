import Theming.Proofs.Sheet.Cutting

set_option autoImplicit false

/-! # Where tokens stand

A text is its tokens with gaps around them, each at its place (`Token.Laid`). So the tokens do not
overlap, and only gaps are outside of them. A comment is what starts with its opening mark, and it
ends at the first closing mark behind that one, or with the text.

The main result is `scan_lossless`. -/

namespace Theming.Sheet

namespace Token

open Text (byteLength)

/-! ## Tokens at their places -/

/-- The text, which starts at a byte offset, is the tokens with gaps around them, each token at its
    place and cut off there. -/
inductive Laid : Nat → List Char → List Token → Prop
  | nil {o : Nat} {s : List Char} (hgaps : ∀ c ∈ s, isGap c = true) : Laid o s []
  | cons {o : Nat} {gaps tail : List Char} {t : Token} {ts : List Token}
      (hgaps : ∀ c ∈ gaps, isGap c = true) (hstart : t.start = o + byteLength gaps)
      (hstop : t.stop = t.start + byteLength t.text) (hcut : t.CutBefore tail)
      (htail : Laid t.stop tail ts) : Laid o (gaps ++ (t.text ++ tail)) (t :: ts)

theorem Laid.after_gap {o : Nat} {c : Char} {s : List Char} {ts : List Token}
    (hgap : isGap c = true) (h : Laid (o + c.utf8Size) s ts) : Laid o (c :: s) ts := by
  cases h with
  | nil hgaps => exact .nil (List.forall_mem_cons.2 ⟨hgap, hgaps⟩)
  | cons hgaps hstart hstop hcut htail =>
    refine .cons (List.forall_mem_cons.2 ⟨hgap, hgaps⟩) ?_ hstop hcut htail
    rw [hstart, byteLength, Nat.add_assoc]

theorem laid_scanFrom (o : Nat) (s : List Char) : Laid o s (scanFrom o s) := by
  fun_induction scanFrom o s with
  | case1 => exact .nil (fun _ hc => by cases hc)
  | case2 o c rest hgap ih => exact ih.after_gap hgap
  | case3 o c rest hgap kind count hnext text stop ih =>
    have hlength : (rest.take count).length = count := by
      have hle := next_le c rest
      rw [hnext] at hle
      rw [List.length_take, Nat.min_eq_left hle]
    have hcut : CutBefore ⟨kind, text, o, stop⟩ (rest.drop count) :=
      ⟨c, rest.take count, rfl, by simpa using hgap, by
        rw [List.take_append_drop, hnext, hlength]⟩
    have hlaid : Laid o ([] ++ (text ++ rest.drop count)) (⟨kind, text, o, stop⟩ :: _) :=
      .cons (fun _ hc => by cases hc) rfl rfl hcut ih
    rwa [List.nil_append, List.cons_append, List.take_append_drop] at hlaid

section Places

variable {o : Nat} {s : List Char} {ts : List Token}

theorem Laid.exists_place (h : Laid o s ts) {t : Token} (ht : t ∈ ts) :
    ∃ before after, s = before ++ (t.text ++ after) ∧ t.start = o + byteLength before ∧
      t.stop = t.start + byteLength t.text ∧ t.CutBefore after := by
  induction h with
  | nil hgaps => cases ht
  | @cons o gaps tail u ts hgaps hstart hstop hcut htail ih =>
    rcases List.mem_cons.1 ht with rfl | ht
    · exact ⟨gaps, tail, rfl, hstart, hstop, hcut⟩
    · obtain ⟨before, after, htext, hstart', hstop', hcut'⟩ := ih ht
      refine ⟨gaps ++ (u.text ++ before), after, ?_, ?_, hstop', hcut'⟩
      · rw [htext]
        simp only [List.append_assoc]
      · rw [hstart', hstop, hstart]
        simp only [Text.byteLength_append, Nat.add_assoc]

theorem Laid.le_start (h : Laid o s ts) : ∀ t ∈ ts, o ≤ t.start := by
  intro t ht
  obtain ⟨before, after, -, hstart, -, -⟩ := h.exists_place ht
  omega

/-- No token starts before the one in front of it has stopped. -/
theorem Laid.pairwise (h : Laid o s ts) : ts.Pairwise (fun a b => a.stop ≤ b.start) := by
  induction h with
  | nil hgaps => exact List.Pairwise.nil
  | cons hgaps hstart hstop hcut htail ih => exact List.Pairwise.cons htail.le_start ih

theorem utf8Size_of_isGap {c : Char} (h : isGap c = true) : c.utf8Size = 1 := by
  simp only [isGap, Bool.or_eq_true, decide_eq_true_eq] at h
  rcases h with (((rfl | rfl) | rfl) | rfl) | rfl <;> rfl

/-- Each byte of a run of gaps is a gap. -/
theorem exists_gap_at {gaps : List Char} (h : ∀ c ∈ gaps, isGap c = true) {i : Nat}
    (hi : i < byteLength gaps) :
    ∃ before c after, gaps = before ++ c :: after ∧ byteLength before = i ∧ isGap c = true := by
  induction gaps generalizing i with
  | nil => cases hi
  | cons d rest ih =>
    obtain ⟨hd, hrest⟩ := List.forall_mem_cons.1 h
    cases i with
    | zero => exact ⟨[], d, rest, rfl, rfl, hd⟩
    | succ i =>
      rw [byteLength, utf8Size_of_isGap hd] at hi
      obtain ⟨before, c, after, rfl, hbefore, hc⟩ := ih hrest (by omega : i < byteLength rest)
      exact ⟨d :: before, c, after, rfl,
        by rw [byteLength, utf8Size_of_isGap hd, hbefore, Nat.add_comm], hc⟩

/-- Each byte outside the tokens is a gap. -/
theorem Laid.exists_gap (h : Laid o s ts) {i : Nat} (hi : i < byteLength s)
    (hfree : ∀ t ∈ ts, ¬ (t.start ≤ o + i ∧ o + i < t.stop)) :
    ∃ before c after, s = before ++ c :: after ∧ byteLength before = i ∧ isGap c = true := by
  induction h generalizing i with
  | nil hgaps => exact exists_gap_at hgaps hi
  | @cons o gaps tail t ts hgaps hstart hstop hcut htail ih =>
    obtain ⟨hself, hrest⟩ := List.forall_mem_cons.1 hfree
    rw [Text.byteLength_append, Text.byteLength_append] at hi
    by_cases hfront : i < byteLength gaps
    · obtain ⟨before, c, after, rfl, hbefore, hc⟩ := exists_gap_at hgaps hfront
      exact ⟨before, c, after ++ (t.text ++ tail), by simp, hbefore, hc⟩
    · -- Behind the gaps and outside the token, the byte stands in the rest.
      have hbehind : byteLength gaps + byteLength t.text ≤ i := by omega
      obtain ⟨k, rfl⟩ := Nat.exists_eq_add_of_le hbehind
      have hk : k < byteLength tail := by omega
      have hplace : o + (byteLength gaps + byteLength t.text + k) = t.stop + k := by omega
      rw [hplace] at hrest
      obtain ⟨before, c, after, rfl, hbefore, hc⟩ := ih hk hrest
      exact ⟨gaps ++ (t.text ++ before), c, after, by simp,
        by simp only [Text.byteLength_append, hbefore, Nat.add_assoc], hc⟩

/-- The text is the texts of the tokens, with a run of gaps in front of each and one at the end. -/
theorem Laid.interleaved (h : Laid o s ts) :
    ∃ runs last, runs.length = ts.length ∧ (∀ run ∈ last :: runs, ∀ c ∈ run, isGap c = true) ∧
      s = (List.zipWith (fun run t => run ++ t.text) runs ts).flatten ++ last := by
  induction h with
  | @nil o s hgaps => exact ⟨[], s, rfl, by simpa using hgaps, rfl⟩
  | @cons o gaps tail t ts hgaps hstart hstop hcut htail ih =>
    obtain ⟨runs, last, hlength, hruns, rfl⟩ := ih
    obtain ⟨hlast, hruns⟩ := List.forall_mem_cons.1 hruns
    refine ⟨gaps :: runs, last, congrArg Nat.succ hlength, ?_, ?_⟩
    · exact List.forall_mem_cons.2 ⟨hlast, List.forall_mem_cons.2 ⟨hgaps, hruns⟩⟩
    · simp only [List.zipWith_cons_cons, List.flatten_cons, List.append_assoc]

end Places

/-! ## Comments -/

/-- Whether a comment holds `inside` behind its opening mark when `after` follows: everything up to
    the first closing mark and with it, or all that is left. -/
def FillsComment (inside after : List Char) : Prop :=
  (∃ body, inside = body ++ ['*', '/'] ∧
      ∀ before behind, inside ++ after = before ++ '*' :: '/' :: behind →
        body.length ≤ before.length) ∨
    (after = [] ∧ ∀ before behind, inside ≠ before ++ '*' :: '/' :: behind)

theorem commentLength_cases (s : List Char) :
    (∃ body rest, s = body ++ '*' :: '/' :: rest ∧ commentLength s = body.length + 2 ∧
        ∀ before behind, s = before ++ '*' :: '/' :: behind → body.length ≤ before.length) ∨
      (commentLength s = s.length ∧ ∀ before behind, s ≠ before ++ '*' :: '/' :: behind) := by
  fun_induction commentLength s with
  | case1 => exact Or.inr ⟨rfl, fun before behind h => by simp at h⟩
  | case2 rest => exact Or.inl ⟨[], rest, rfl, rfl, fun _ _ _ => Nat.zero_le _⟩
  | case3 c rest hopen ih =>
    -- No closing mark starts here, so the first one of the rest is the first one.
    have hlater : ∀ before behind, c :: rest = before ++ '*' :: '/' :: behind →
        ∃ more, before = c :: more ∧ rest = more ++ '*' :: '/' :: behind := by
      intro before behind h
      cases before with
      | nil =>
        obtain ⟨rfl, rfl⟩ := List.cons.inj h
        exact absurd rfl (hopen behind rfl)
      | cons d more =>
        obtain ⟨rfl, hrest⟩ := List.cons.inj h
        exact ⟨more, rfl, hrest⟩
    rcases ih with ⟨body, after, rfl, hlength, hfirst⟩ | ⟨hlength, hnone⟩
    · refine Or.inl ⟨c :: body, after, rfl, by rw [hlength]; rfl, fun before behind h => ?_⟩
      obtain ⟨more, rfl, hrest⟩ := hlater before behind h
      exact Nat.succ_le_succ (hfirst more behind hrest)
    · refine Or.inr ⟨by rw [hlength]; rfl, fun before behind h => ?_⟩
      obtain ⟨more, -, hrest⟩ := hlater before behind h
      exact hnone more behind hrest

theorem fillsComment_of_commentLength {inside after : List Char}
    (h : commentLength (inside ++ after) = inside.length) : FillsComment inside after := by
  rcases commentLength_cases (inside ++ after) with ⟨body, rest, htext, hlength, hfirst⟩ |
    ⟨hlength, hnone⟩
  · refine Or.inl ⟨body, ?_, hfirst⟩
    have hsplit : inside ++ after = (body ++ ['*', '/']) ++ rest := by rw [htext]; simp
    refine (List.append_inj hsplit ?_).1
    rw [← h, hlength, List.length_append]
    rfl
  · rw [h, List.length_append] at hlength
    obtain rfl : after = [] := List.length_eq_zero_iff.1 (by omega)
    rw [List.append_nil] at hnone
    exact Or.inr ⟨rfl, hnone⟩

theorem CutBefore.comment_iff {t : Token} {after : List Char} (h : t.CutBefore after) :
    t.kind = .comment ↔ ['/', '*'] <+: t.text := by
  constructor
  · intro hkind
    obtain ⟨inside, htext, -⟩ := h.comment hkind
    exact ⟨inside, htext.symm⟩
  · rintro ⟨inside, htext⟩
    obtain ⟨c, rest, htext', -, hnext⟩ := h
    rw [htext', List.cons_append] at htext
    obtain ⟨rfl, rfl⟩ := List.cons.inj htext
    exact (Prod.mk.inj hnext).1.symm

theorem CutBefore.fillsComment {t : Token} {inside after : List Char} (h : t.CutBefore after)
    (htext : t.text = '/' :: '*' :: inside) : FillsComment inside after := by
  obtain ⟨inside', htext', hlength⟩ := h.comment (h.comment_iff.2 ⟨inside, htext.symm⟩)
  rw [htext] at htext'
  obtain rfl : inside = inside' := (List.cons.inj (List.cons.inj htext').2).2
  exact fillsComment_of_commentLength hlength

end Token

open Token Text

/-- **Scanning loses nothing.** Tokens are not empty, stand in order without overlapping, and start
    and stop between characters; each byte outside of them is a gap, so the text is their texts with
    runs of gaps around them. Comments are the tokens that start with the opening mark, and end at
    the first closing mark behind it, or with the text. -/
theorem scan_lossless (template : String) :
    (scan template).Pairwise (fun a b => a.stop ≤ b.start) ∧
      (∀ t ∈ scan template, t.start < t.stop ∧ (t.kind = .comment ↔ ['/', '*'] <+: t.text) ∧
        ∃ before after, template.toList = before ++ (t.text ++ after) ∧
          t.start = byteLength before ∧ t.stop = byteLength (before ++ t.text) ∧
          ∀ inside, t.text = '/' :: '*' :: inside → FillsComment inside after) ∧
      (∀ i < template.utf8ByteSize, (∀ t ∈ scan template, ¬ (t.start ≤ i ∧ i < t.stop)) →
        ∃ before c after, template.toList = before ++ c :: after ∧ byteLength before = i ∧
          isGap c = true) ∧
      ∃ runs last, runs.length = (scan template).length ∧
        (∀ run ∈ last :: runs, ∀ c ∈ run, isGap c = true) ∧
        template.toList =
          (List.zipWith (fun run t => run ++ t.text) runs (scan template)).flatten ++ last := by
  have hlaid : Laid 0 template.toList (scan template) := laid_scanFrom 0 template.toList
  refine ⟨hlaid.pairwise, fun t ht => ?_, fun i hi hfree => ?_, hlaid.interleaved⟩
  · obtain ⟨before, after, htext, hstart, hstop, hcut⟩ := hlaid.exists_place ht
    have hpos := byteLength_pos hcut.text_ne_nil
    refine ⟨by omega, hcut.comment_iff, before, after, htext, by omega, ?_,
      fun inside => hcut.fillsComment⟩
    rw [byteLength_append]
    omega
  · have hsize : template.utf8ByteSize = byteLength template.toList := by
      rw [← utf8ByteSize_ofList, String.ofList_toList]
    exact hlaid.exists_gap (hsize ▸ hi) (by simpa only [Nat.zero_add] using hfree)

end Theming.Sheet
