import Theming.Proofs.Sheet.Cutting

set_option autoImplicit false

/-! # Scanning what was joined

The joined text of a run of tokens is scanned as the same tokens again, without the comments
(`Token.rescans_joinText`). `Token.Scans` says what a text is scanned as wherever it stands, and how
that is put together from the parts of the text. -/

namespace Theming.Sheet

namespace Token

/-! ## Scanning a part of a text -/

/-- In front of a separator or the end, the text is scanned on its own, as tokens that satisfy a
    property, at every offset. -/
def Scans (x : List Char) (P : List Token → Prop) : Prop :=
  ∀ o tail, Separated tail → ∃ ts,
    scanFrom o (x ++ tail) = ts ++ scanFrom (o + Text.byteLength x) tail ∧ P ts

section Parts

variable {x y : List Char} {P Q : List Token → Prop}

theorem Scans.mono (h : Scans x P) (himp : ∀ ts, P ts → Q ts) : Scans x Q := by
  intro o tail htail
  obtain ⟨ts, hscan, hts⟩ := h o tail htail
  exact ⟨ts, hscan, himp ts hts⟩

/-- A whole text is scanned as what it is scanned as. -/
theorem Scans.whole (h : Scans x P) (o : Nat) : P (scanFrom o x) := by
  obtain ⟨ts, hscan, hts⟩ := h o [] separated_nil
  rw [scanFrom_nil, List.append_nil, List.append_nil] at hscan
  rwa [hscan]

theorem scans_nil : Scans [] (fun ts => ts = []) :=
  fun o tail _ => ⟨[], by simp [Text.byteLength], rfl⟩

/-- A gap in front of a text is passed over. -/
theorem Scans.after_gap {c : Char} (h : Scans x P) (hgap : isGap c = true) : Scans (c :: x) P := by
  intro o tail htail
  obtain ⟨ts, hscan, hts⟩ := h (o + c.utf8Size) tail htail
  refine ⟨ts, ?_, hts⟩
  rw [List.cons_append, scanFrom_gap hgap, hscan, Text.byteLength, Nat.add_assoc]

theorem Scans.after_gaps {gaps : List Char} (h : Scans x P) (hgaps : ∀ c ∈ gaps, isGap c = true) :
    Scans (gaps ++ x) P := by
  induction gaps with
  | nil => exact h
  | cons c rest ih =>
    exact (ih (fun d hd => hgaps d (List.mem_cons_of_mem c hd))).after_gap
      (hgaps c List.mem_cons_self)

/-- Two texts are scanned one after the other if the second one starts with a separator. -/
theorem Scans.append (hx : Scans x P) (hy : Scans y Q) (hsep : Separated y) :
    Scans (x ++ y) (fun ts => ∃ us vs, ts = us ++ vs ∧ P us ∧ Q vs) := by
  intro o tail htail
  have hseparated : Separated (y ++ tail) := by
    cases y with
    | nil => exact htail
    | cons c more => exact hsep
  obtain ⟨us, hus, hP⟩ := hx o (y ++ tail) hseparated
  obtain ⟨vs, hvs, hQ⟩ := hy (o + Text.byteLength x) tail htail
  refine ⟨us ++ vs, ?_, us, vs, rfl, hP, hQ⟩
  rw [List.append_assoc, hus, hvs, Text.byteLength_append, List.append_assoc, Nat.add_assoc]

theorem Scans.before_gaps {gaps : List Char} (h : Scans x P) (hgaps : ∀ c ∈ gaps, isGap c = true) :
    Scans (x ++ gaps) P := by
  have hnone : Scans gaps (fun ts => ts = []) := by
    have hscans := scans_nil.after_gaps hgaps
    rwa [List.append_nil] at hscans
  have hsep : Separated gaps :=
    fun c hc => isSeparator_of_isGap (hgaps c (List.mem_of_mem_head? hc))
  refine (h.append hnone hsep).mono ?_
  rintro ts ⟨us, vs, rfl, hus, rfl⟩
  rwa [List.append_nil]

/-- A character that is a token by itself is cut off from any text behind it. -/
theorem Scans.after_single {c : Char} {kind : Kind} (h : Scans x P) (hkind : single? c = some kind)
    (hgap : isGap c = false) :
    Scans (c :: x) (fun ts => ∃ t us, ts = t :: us ∧ t.kind = kind ∧ P us) := by
  intro o tail htail
  obtain ⟨us, hus, hP⟩ := h (o + Text.byteLength [c]) tail htail
  have hcut : CutBefore ⟨kind, [c], 0, 0⟩ (x ++ tail) :=
    ⟨c, [], rfl, hgap, by rw [next, hkind]; rfl⟩
  refine ⟨movedTo ⟨kind, [c], 0, 0⟩ o :: us, ?_, _, us, rfl, rfl, hP⟩
  have hscan := scanFrom_cut hcut o
  dsimp only at hscan
  rw [← List.singleton_append, List.append_assoc, hscan, hus, Text.byteLength_append, Nat.add_assoc]
  rfl

end Parts

/-! ## Joined tokens -/

/-- What a token is, apart from its place. -/
def shape (t : Token) : Kind × List Char := (t.kind, t.text)

/-- The tokens without comments, apart from their places. -/
def shapes (ts : List Token) : List (Kind × List Char) :=
  (ts.filter (fun t => t.kind ≠ .comment)).map shape

theorem shapes_cons_comment {t : Token} (h : t.kind = .comment) (ts : List Token) :
    shapes (t :: ts) = shapes ts := by simp [shapes, h]

theorem shapes_cons {t : Token} (h : t.kind ≠ .comment) (ts : List Token) :
    shapes (t :: ts) = t.shape :: shapes ts := by simp [shapes, h]

section Joining

variable {t : Token} {last : Nat} {gap : Bool} {rest : List Token}

theorem joinAfter_comment (h : t.kind = .comment) :
    joinAfter last gap (t :: rest) = joinAfter last true rest := by rw [joinAfter, if_pos h]

theorem joinAfter_gap (h : t.kind ≠ .comment) (hgap : gap = true ∨ last < t.start) :
    joinAfter last gap (t :: rest) = ' ' :: (t.text ++ joinAfter t.stop false rest) := by
  rw [joinAfter, if_neg h, if_pos (by simpa using hgap)]
  rfl

theorem joinAfter_close (h : t.kind ≠ .comment) (hgap : ¬ (gap = true ∨ last < t.start)) :
    joinAfter last gap (t :: rest) = t.text ++ joinAfter t.stop false rest := by
  rw [joinAfter, if_neg h, if_neg (by simpa using hgap)]
  rfl

end Joining

/-- Behind a gap, what is joined starts with a space. -/
theorem separated_joinAfter (last : Nat) (ts : List Token) {tail : List Char}
    (htail : Separated tail) : Separated (joinAfter last true ts ++ tail) := by
  induction ts with
  | nil => exact htail
  | cons t rest ih =>
    by_cases hkind : t.kind = .comment
    · rw [joinAfter_comment hkind]
      exact ih
    · rw [joinAfter_gap hkind (Or.inl rfl)]
      exact separated_cons (by decide) _

/-- A token stays what it is in front of what is joined behind it. -/
theorem cutBefore_joinAfter {t : Token} {rest : List Token} (h : Run (t :: rest))
    (hkind : t.kind ≠ .comment) {tail : List Char} (htail : Separated tail) :
    t.CutBefore (joinAfter t.stop false rest ++ tail) := by
  obtain ⟨⟨hfirm, s, hcut⟩, hmeets, hrest⟩ := h
  cases rest with
  | nil => exact hcut.follows hfirm hkind (Or.inr htail)
  | cons u more =>
    obtain ⟨⟨-, s', hnext⟩, -, -⟩ := hrest
    by_cases hcomment : u.kind = .comment
    · rw [joinAfter_comment hcomment]
      exact hcut.follows hfirm hkind (Or.inr (separated_joinAfter _ more htail))
    · by_cases hgap : t.stop < u.start
      · rw [joinAfter_gap hcomment (Or.inr hgap)]
        exact hcut.follows hfirm hkind (Or.inr (separated_cons (by decide) _))
      · obtain ⟨s'', hcut''⟩ := hmeets hgap
        rw [joinAfter_close hcomment (by simpa using hgap)]
        refine hcut''.follows hfirm hkind (Or.inl ?_)
        obtain ⟨c, inner, htext⟩ := List.exists_cons_of_ne_nil hnext.text_ne_nil
        simp [htext]

/-- What is joined behind a token is scanned as its tokens again, with the same gaps. -/
theorem scan_joinAfter {ts : List Token} (h : Run ts) (last : Nat) (gap : Bool) (o : Nat)
    {tail : List Char} (htail : Separated tail) :
    ∃ us, scanFrom o (joinAfter last gap ts ++ tail) =
        us ++ scanFrom (o + Text.byteLength (joinAfter last gap ts)) tail ∧
      us.map shape = shapes ts ∧ joinAfter o false us = joinAfter last gap ts := by
  induction ts generalizing last gap o with
  | nil => exact ⟨[], by simp [joinAfter, Text.byteLength], rfl, rfl⟩
  | cons t rest ih =>
    by_cases hkind : t.kind = .comment
    · rw [joinAfter_comment hkind, shapes_cons_comment hkind]
      exact ih h.2.2 last true o
    · have hcut := cutBefore_joinAfter h hkind htail
      rw [shapes_cons hkind]
      by_cases hgap : gap = true ∨ last < t.start
      · obtain ⟨us, hscan, hshapes, hjoin⟩ :=
          ih h.2.2 t.stop false (o + 1 + Text.byteLength t.text)
        refine ⟨t.movedTo (o + 1) :: us, ?_, by rw [List.map_cons, hshapes]; rfl, ?_⟩
        · have hspace : Char.utf8Size ' ' = 1 := rfl
          rw [joinAfter_gap hkind hgap, List.cons_append, scanFrom_gap (by decide),
            List.append_assoc, hspace, scanFrom_cut hcut, hscan, Text.byteLength, hspace,
            Text.byteLength_append, Nat.add_assoc (o + 1), Nat.add_assoc o]
          rfl
        · rw [joinAfter_gap hkind hgap, ← hjoin]
          exact joinAfter_gap (t := t.movedTo (o + 1)) hkind (Or.inr (Nat.lt_succ_self o))
      · obtain ⟨us, hscan, hshapes, hjoin⟩ := ih h.2.2 t.stop false (o + Text.byteLength t.text)
        refine ⟨t.movedTo o :: us, ?_, by rw [List.map_cons, hshapes]; rfl, ?_⟩
        · rw [joinAfter_close hkind hgap, List.append_assoc, scanFrom_cut hcut, hscan,
            Text.byteLength_append, Nat.add_assoc]
          rfl
        · rw [joinAfter_close hkind hgap, ← hjoin]
          exact joinAfter_close (t := t.movedTo o) hkind (by simp [movedTo])

/-- The text is scanned as tokens of these shapes, and is what they are joined to. -/
def Rescans (x : List Char) (s : List (Kind × List Char)) : Prop :=
  Scans x (fun ts => ts.map shape = s ∧ joinText ts = x)

/-- **What tokens of a run are joined to is scanned as the same tokens**, without the comments. -/
theorem rescans_joinText {ts : List Token} (h : Run ts) : Rescans (joinText ts) (shapes ts) := by
  intro o tail htail
  induction ts with
  | nil => exact ⟨[], by simp [joinText, Text.byteLength], rfl, rfl⟩
  | cons t rest ih =>
    by_cases hkind : t.kind = .comment
    · rw [joinText, if_pos hkind, shapes_cons_comment hkind]
      exact ih h.2.2
    · obtain ⟨us, hscan, hshapes, hjoin⟩ :=
        scan_joinAfter h.2.2 t.stop false (o + Text.byteLength t.text) htail
      rw [joinText, if_neg hkind, shapes_cons hkind]
      refine ⟨t.movedTo o :: us, ?_, by rw [List.map_cons, hshapes]; rfl, ?_⟩
      · rw [List.append_assoc, scanFrom_cut (cutBefore_joinAfter h hkind htail), hscan,
          Text.byteLength_append, Nat.add_assoc]
        rfl
      · rw [← hjoin]
        exact if_neg hkind

end Token

end Theming.Sheet
