import Theming.Proofs.Sheet.Writing
import Theming.Proofs.Text.Words

set_option autoImplicit false

/-! # What is read from phrases

The texts that are read from a statement or from the head of a block are scanned again as the tokens
that they were joined from. So the statement or the head that the layouts write for them is read as
before: at-words with a prelude, declarations, and lists of selectors. -/

namespace Theming.Sheet

open Token (Flowing Run Scans Rescans Shielded kinds depthOver isGap joinText shape shapes)

/-! ## Reading without faults -/

/-- What is read from a statement without faults: nothing, an at-word with its prelude, or a
    declaration. -/
theorem readStatement_cases {ts : List Token} (h : (readStatement ts).faults = []) :
    ((∀ t, ts.head? = some t → t.kind ≠ .atKeyword) ∧ (Token.cutAt .colon 0 ts).2 = none ∧
        Token.join ts = "" ∧ (readStatement ts).nodes = []) ∨
      (∃ t rest, ts = t :: rest ∧ t.kind = .atKeyword ∧
        (readStatement ts).nodes = [.declaration (String.ofList t.text) (Token.join rest)]) ∨
      ∃ before after, (∀ t, ts.head? = some t → t.kind ≠ .atKeyword) ∧
        Token.cutAt .colon 0 ts = (before, some after) ∧ Token.join before ≠ "" ∧
        (readStatement ts).nodes = [.declaration (Token.join before) (Token.join after)] := by
  cases ts with
  | nil => exact Or.inl ⟨fun _ ht => (by cases ht), rfl, rfl, rfl⟩
  | cons t rest =>
    by_cases hkind : t.kind = .atKeyword
    · exact Or.inr (Or.inl ⟨t, rest, rfl, hkind, by rw [readStatement, if_pos hkind]⟩)
    have hhead : ∀ u, (t :: rest).head? = some u → u.kind ≠ .atKeyword := by
      rintro u hu
      obtain rfl := Option.some.inj hu
      exact hkind
    rw [readStatement, if_neg hkind] at h ⊢
    rcases hcut : Token.cutAt .colon 0 (t :: rest) with ⟨before, _ | after⟩
    · rw [readDeclaration, hcut] at h ⊢
      dsimp only at h ⊢
      split at h
      · next htext => exact Or.inl ⟨hhead, rfl, htext, by rw [if_pos htext]⟩
      · cases h
    · rw [readDeclaration, hcut] at h ⊢
      dsimp only at h ⊢
      split at h
      · cases h
      · next hne => exact Or.inr (Or.inr ⟨before, after, hhead, rfl, hne, by rw [if_neg hne]⟩)

theorem readBlock_selectors {t : Token} {rest : List Token} {brace : Token} {body : Reading}
    (hkind : t.kind ≠ .atKeyword) (hne : selectorsOf (t :: rest) ≠ []) :
    readBlock (t :: rest) brace body =
      ⟨[.rule ((selectorsOf (t :: rest)).map .selector ++ body.nodes)], body.faults⟩ := by
  rw [readBlock, if_neg hkind]
  split
  · next hempty => exact absurd hempty hne
  · rfl

/-- What is read from a block without faults: a condition block or a rule. -/
theorem readBlock_cases {head : List Token} {brace : Token} {body : Reading}
    (h : (readBlock head brace body).faults = []) :
    body.faults = [] ∧ ∃ t rest, head = t :: rest ∧
      ((t.kind = .atKeyword ∧ (readBlock head brace body).nodes =
          [.condition (String.ofList (t.text.drop 1)) (Token.join rest) body.nodes]) ∨
        (t.kind ≠ .atKeyword ∧ selectorsOf head ≠ [] ∧ (readBlock head brace body).nodes =
          [.rule ((selectorsOf head).map .selector ++ body.nodes)])) := by
  cases head with
  | nil => cases h
  | cons t rest =>
    by_cases hkind : t.kind = .atKeyword
    · rw [readBlock, if_pos hkind] at h ⊢
      exact ⟨h, t, rest, rfl, Or.inl ⟨hkind, rfl⟩⟩
    by_cases hempty : selectorsOf (t :: rest) = []
    · rw [readBlock, if_neg hkind, hempty] at h
      cases h
    rw [readBlock_selectors hkind hempty] at h ⊢
    exact ⟨h, t, rest, rfl, Or.inr ⟨hkind, hempty, rfl⟩⟩

/-! ## Shapes -/

theorem kinds_of_shapes {us ts : List Token} (h : us.map shape = shapes ts) :
    kinds us = (kinds ts).filter (· ≠ .comment) := by
  have hkinds := congrArg (List.map Prod.fst) h
  rw [shapes, List.map_map, List.map_map] at hkinds
  rw [kinds, kinds, List.filter_map]
  exact hkinds

/-- A token of the same shape, which is no comment. -/
theorem exists_of_shapes {us ts : List Token} (h : us.map shape = shapes ts) {u : Token}
    (hu : u ∈ us) : ∃ t ∈ ts, t.kind ≠ .comment ∧ t.kind = u.kind ∧ t.text = u.text := by
  have hmem : u.shape ∈ shapes ts := by
    rw [← h]
    exact List.mem_map_of_mem hu
  obtain ⟨t, ht, hshape⟩ := List.mem_map.1 hmem
  obtain ⟨hkind, htext⟩ := Prod.mk.inj hshape
  obtain ⟨htokens, hplain⟩ := List.mem_filter.1 ht
  exact ⟨t, htokens, by simpa using hplain, hkind, htext⟩

theorem plain_of_shapes {us ts : List Token} (h : us.map shape = shapes ts) :
    ∀ t ∈ us, t.kind ≠ .comment := by
  intro u hu
  obtain ⟨t, -, hplain, hkind, -⟩ := exists_of_shapes h hu
  rwa [hkind] at hplain

theorem firm_of_shapes {us ts : List Token} (h : us.map shape = shapes ts) (hrun : Run ts) :
    ∀ u ∈ us, u.IsFirm := by
  intro u hu
  obtain ⟨t, ht, -, hkind, htext⟩ := exists_of_shapes h hu
  have hfirm := (hrun.of_mem ht).1
  rwa [Token.IsFirm, hkind, htext] at hfirm

/-- Only comments are joined to nothing. -/
theorem filter_of_joinText_eq_nil {ts : List Token} (hne : ∀ t ∈ ts, t.text ≠ [])
    (h : joinText ts = []) : ts.filter (fun t => t.kind ≠ .comment) = [] := by
  induction ts with
  | nil => rfl
  | cons t rest ih =>
    obtain ⟨hself, hrest⟩ := List.forall_mem_cons.1 hne
    by_cases hkind : t.kind = .comment
    · rw [joinText, if_pos hkind] at h
      rw [List.filter_cons_of_neg (by simpa using hkind)]
      exact ih hrest h
    · rw [joinText, if_neg hkind] at h
      exact absurd (List.append_eq_nil_iff.1 h).1 hself

theorem shapes_of_joinText_eq_nil {ts : List Token} (hrun : Run ts) (h : joinText ts = []) :
    shapes ts = [] := by
  have hne : ∀ t ∈ ts, t.text ≠ [] := fun t ht =>
    let ⟨_, _, hcut⟩ := hrun.of_mem ht
    hcut.text_ne_nil
  rw [shapes, filter_of_joinText_eq_nil hne h]
  rfl

theorem toList_join (ts : List Token) : (Token.join ts).toList = joinText ts := String.toList_ofList

theorem join_eq_empty_iff {ts : List Token} : Token.join ts = "" ↔ joinText ts = [] := by
  rw [← String.toList_inj, toList_join]
  rfl

/-- How deep the parentheses of a value are nested at its end, seen in the tokens it was joined
    from. -/
theorem depthOver_of_scan {ts : List Token} (hrun : Run ts)
    (h : (Token.scan (Token.join ts)).foldl Token.depthAfter 0 = 0) :
    depthOver 0 (kinds ts) = 0 := by
  obtain ⟨hshapes, -⟩ := (Token.rescans_joinText hrun).whole 0
  rw [Token.scan, toList_join, Token.foldl_depthAfter, kinds_of_shapes hshapes,
    Token.depthOver_filter] at h
  exact h

/-! ## At-words with a prelude -/

theorem scans_token {t : Token} (hrun : Run [t]) (hkind : t.kind ≠ .comment) :
    Scans t.text (fun ts => ∃ u, ts = [u] ∧ u.shape = t.shape) := by
  have htext : joinText [t] = t.text := by
    rw [joinText, if_neg hkind]
    exact List.append_nil t.text
  have hscans := Token.rescans_joinText hrun
  rw [htext, Rescans, Token.shapes_cons hkind] at hscans
  refine hscans.mono ?_
  rintro ts ⟨hshapes, -⟩
  obtain ⟨u, us, rfl, hu, hus⟩ := List.map_eq_cons_iff.1 hshapes
  obtain rfl : us = [] := List.map_eq_nil_iff.1 hus
  exact ⟨u, rfl, hu⟩

/-- An at-word and its prelude are scanned again. -/
theorem scans_statementHead {t : Token} {rest : List Token} (hrun : Run (t :: rest))
    (hkind : t.kind = .atKeyword) :
    Scans (statementHead (String.ofList t.text) (Token.join rest)) (fun ts =>
      ∃ u vs, ts = u :: vs ∧ u.shape = t.shape ∧ vs.map shape = shapes rest ∧
        Token.join vs = Token.join rest) := by
  have hword := scans_token ⟨hrun.1, trivial, trivial⟩ (by rw [hkind]; decide)
  have hprelude := Token.rescans_joinText hrun.2.2
  unfold statementHead
  rw [String.toList_ofList]
  split
  · next hempty =>
    refine hword.mono ?_
    rintro ts ⟨u, rfl, hu⟩
    have hshapes := shapes_of_joinText_eq_nil hrun.2.2 (join_eq_empty_iff.1 hempty)
    exact ⟨u, [], rfl, hu, hshapes.symm, hempty.symm⟩
  · rw [toList_join]
    refine (hword.append (hprelude.after_gap rfl) (Token.separated_cons rfl _)).mono ?_
    rintro ts ⟨us, vs, rfl, ⟨u, rfl, hu⟩, hshapes, hjoin⟩
    exact ⟨u, vs, rfl, hu, hshapes, congrArg String.ofList hjoin⟩

theorem flowing_of_shapes {depth : Nat} {us ts : List Token} (h : us.map shape = shapes ts)
    (hflowing : Flowing depth (kinds ts)) : Flowing depth (kinds us) := by
  rw [kinds_of_shapes h]
  exact hflowing.filter

theorem map_shape_cons {t u : Token} {rest vs : List Token} (hkind : t.kind ≠ .comment)
    (hu : u.shape = t.shape) (hvs : vs.map shape = shapes rest) :
    (u :: vs).map shape = shapes (t :: rest) := by
  rw [List.map_cons, hu, hvs, Token.shapes_cons hkind]

/-- An at-word with a prelude is read as before when it is written as a statement, with as many
    parentheses left open. -/
theorem isLast_at {t : Token} {rest : List Token} (h : Phrase (t :: rest))
    (hkind : t.kind = .atKeyword) :
    Scans (statementHead (String.ofList t.text) (Token.join rest)) (fun ts =>
      IsLast (.declaration (String.ofList t.text) (Token.join rest)) ts ∧
        depthOver 0 (kinds ts) = depthOver 0 (kinds rest)) := by
  refine (scans_statementHead h.run hkind).mono ?_
  rintro ts ⟨u, vs, rfl, hu, hvs, hjoin⟩
  have hshapes := map_shape_cons (by rw [hkind]; decide) hu hvs
  obtain ⟨hukind, hutext⟩ := Prod.mk.inj hu
  refine ⟨⟨flowing_of_shapes hshapes h.flowing, plain_of_shapes hshapes, List.cons_ne_nil u vs, ?_⟩,
    ?_⟩
  · rw [readStatement, if_pos (hukind.trans hkind), hutext, hjoin]
  · rw [kinds_of_shapes hshapes, Token.depthOver_filter]
    show depthOver (t.kind.depthAfter 0) (kinds rest) = _
    rw [hkind]
    rfl

theorem isStatement_at {t : Token} {rest : List Token} (h : Phrase (t :: rest))
    (hkind : t.kind = .atKeyword) (hclosed : depthOver 0 (kinds rest) = 0) :
    Scans (statementHead (String.ofList t.text) (Token.join rest))
      (IsStatement (.declaration (String.ofList t.text) (Token.join rest))) :=
  (isLast_at h hkind).mono fun _ hts => ⟨hts.1, hts.2.trans hclosed⟩

/-- An at-word with a prelude is read as before when it is written in front of a block. -/
theorem isHead_at {t : Token} {rest : List Token} (h : Phrase (t :: rest))
    (hkind : t.kind = .atKeyword) :
    Scans (conditionHead (String.ofList (t.text.drop 1)) (Token.join rest))
      (IsHead (.condition (String.ofList (t.text.drop 1)) (Token.join rest))) := by
  obtain ⟨tail, hcut⟩ := h.run.1.2
  obtain ⟨name, hname⟩ := List.head?_eq_some_iff.1 (hcut.head_of_atKeyword hkind)
  have htext : conditionHead (String.ofList (t.text.drop 1)) (Token.join rest) =
      statementHead (String.ofList t.text) (Token.join rest) := by
    unfold conditionHead statementHead
    rw [hname]
    simp
  rw [htext]
  refine (scans_statementHead h.run hkind).mono ?_
  rintro ts ⟨u, vs, rfl, hu, hvs, hjoin⟩
  have hshapes := map_shape_cons (by rw [hkind]; decide) hu hvs
  obtain ⟨hukind, hutext⟩ := Prod.mk.inj hu
  refine ⟨flowing_of_shapes hshapes h.flowing, plain_of_shapes hshapes, fun brace body => ?_⟩
  rw [readBlock, if_pos (hukind.trans hkind), hutext, hjoin]

/-! ## Texts that start no at-word -/

/-- A text that is not empty and starts with no at sign is scanned again as tokens with no at-word
    in front. -/
theorem scans_unmarked {ts : List Token} (hrun : Run ts) (hne : Token.join ts ≠ "")
    (hhead : Text.headIs '@' (Token.join ts) = false) :
    Scans (joinText ts) (fun us => us.map shape = shapes ts ∧ Token.join us = Token.join ts ∧
      ∃ u vs, us = u :: vs ∧ u.kind ≠ .atKeyword) := by
  refine (Token.rescans_joinText hrun).mono ?_
  rintro us ⟨hshapes, hjoin⟩
  refine ⟨hshapes, congrArg String.ofList hjoin, ?_⟩
  cases us with
  | nil =>
    refine absurd ?_ hne
    rw [join_eq_empty_iff, ← hjoin]
    rfl
  | cons u vs =>
    refine ⟨u, vs, rfl, fun hkind => ?_⟩
    -- An at-word in front would come from one that starts the text.
    obtain ⟨t, ht, -, htkind, httext⟩ := exists_of_shapes hshapes List.mem_cons_self
    obtain ⟨tail, hcut⟩ := (hrun.of_mem ht).2
    obtain ⟨name, hname⟩ := List.head?_eq_some_iff.1 (hcut.head_of_atKeyword (htkind.trans hkind))
    have hstart : joinText (u :: vs) = '@' :: (name ++ Token.joinAfter u.stop false vs) := by
      rw [joinText, if_neg (by rw [hkind]; decide), ← httext, hname]
      rfl
    rw [Text.headIs, toList_join, ← hjoin, hstart] at hhead
    cases hhead

/-! ## Declarations -/

/-- What starts with another token than an at-word starts with no at sign. -/
theorem headIs_join {t : Token} {rest : List Token} (hrun : Run (t :: rest))
    (hcomment : t.kind ≠ .comment) (hkind : t.kind ≠ .atKeyword) :
    Text.headIs '@' (Token.join (t :: rest)) = false := by
  obtain ⟨hfirm, tail, hcut⟩ := hrun.1
  have hstart : t.text.head? ≠ some '@' := fun hc => hkind (hcut.atKeyword_of_head hfirm hc)
  obtain ⟨c, more, htext⟩ := List.exists_cons_of_ne_nil hcut.text_ne_nil
  rw [htext] at hstart
  rw [Text.headIs, toList_join, joinText, if_neg hcomment, htext]
  simpa using hstart

/-- The property of a declaration starts with no at sign. -/
theorem headIs_property {ts before after : List Token} (h : Phrase ts)
    (hword : ∀ t, ts.head? = some t → t.kind ≠ .atKeyword)
    (hcut : Token.cutAt .colon 0 ts = (before, some after)) (hne : Token.join before ≠ "") :
    Text.headIs '@' (Token.join before) = false := by
  obtain ⟨c, rfl, -⟩ := Token.cutAt_some hcut
  cases before with
  | nil => exact absurd rfl hne
  | cons u more => exact headIs_join (Token.run_append h.run).1 (h.head u rfl) (hword u rfl)

/-- What stands behind a colon is a run. -/
theorem run_after {ts before after : List Token} (hrun : Run ts)
    (hcut : Token.cutAt .colon 0 ts = (before, some after)) : Run after := by
  obtain ⟨c, rfl, -⟩ := Token.cutAt_some hcut
  exact (Token.run_append hrun).2.2.2

/-- An at-word starts with an at sign. -/
theorem headIs_atKeyword {t : Token} (hcut : ∃ tail, t.CutBefore tail) (hkind : t.kind = .atKeyword) :
    Text.headIs '@' (String.ofList t.text) = true := by
  obtain ⟨tail, hcut⟩ := hcut
  rw [Text.headIs, String.toList_ofList, hcut.head_of_atKeyword hkind]
  rfl

/-- A colon between two runs stays where it is. -/
theorem kinds_around {us vs before after : List Token} {x c : Token}
    (hus : us.map shape = shapes before) (hvs : vs.map shape = shapes after)
    (hx : x.kind = c.kind) (hc : c.kind ≠ .comment) :
    kinds (us ++ x :: vs) = (kinds (before ++ c :: after)).filter (· ≠ .comment) := by
  rw [Token.kinds_append_cons, Token.kinds_append_cons, List.filter_append,
    List.filter_cons_of_pos (by simpa using hc), hx, kinds_of_shapes hus, kinds_of_shapes hvs]

theorem plain_around {us vs : List Token} {x : Token} (hus : ∀ t ∈ us, t.kind ≠ .comment)
    (hx : x.kind ≠ .comment) (hvs : ∀ t ∈ vs, t.kind ≠ .comment) :
    ∀ t ∈ us ++ x :: vs, t.kind ≠ .comment :=
  List.forall_mem_append.2 ⟨hus, List.forall_mem_cons.2 ⟨hx, hvs⟩⟩

/-- A declaration is read as before when its property and value are written around a colon, with as
    many parentheses left open. -/
theorem isLast_declaration {ts before after : List Token} (h : Phrase ts)
    (hcut : Token.cutAt .colon 0 ts = (before, some after)) (hne : Token.join before ≠ "")
    (hhead : Text.headIs '@' (Token.join before) = false)
    {gaps : List Char} (hgaps : ∀ c ∈ gaps, isGap c = true) :
    Scans ((Token.join before).toList ++ ':' :: (gaps ++ (Token.join after).toList)) (fun us =>
      IsLast (.declaration (Token.join before) (Token.join after)) us ∧
        depthOver 0 (kinds us) = depthOver 0 (kinds after)) := by
  obtain ⟨c, rfl, hcolon, hshielded, hdepth⟩ := Token.cutAt_some hcut
  obtain ⟨hbefore, -, -, hafter⟩ := Token.run_append h.run
  rw [toList_join, toList_join]
  refine ((scans_unmarked hbefore hne hhead).append
    (((Token.rescans_joinText hafter).after_gaps hgaps).after_single rfl rfl)
    (Token.separated_cons rfl _)).mono ?_
  rintro ts ⟨us, ws, rfl, ⟨hus, hproperty, u, more, hcons, hword⟩, x, vs, rfl, hx, hvs, hvalue⟩
  have hkinds := kinds_around hus hvs (hx.trans hcolon.symm) (by rw [hcolon]; decide)
  have husdepth : depthOver 0 (kinds us) = 0 := by
    rw [kinds_of_shapes hus, Token.depthOver_filter, hdepth]
  have hplain := plain_around (plain_of_shapes hus) (by rw [hx]; decide) (plain_of_shapes hvs)
  refine ⟨⟨?_, hplain, by simp, ?_⟩, ?_⟩
  · rw [hkinds]
    exact h.flowing.filter
  · have hread : readStatement (us ++ x :: vs) = readDeclaration u.start (us ++ x :: vs) := by
      rw [hcons, List.cons_append, readStatement, if_neg hword]
    have hsplit : Token.cutAt .colon 0 (us ++ x :: vs) = (us, some vs) := by
      refine Token.cutAt_append ?_ husdepth hx vs
      rw [kinds_of_shapes hus]
      exact hshielded.filter
    have hjoin : Token.join vs = Token.join after := congrArg String.ofList hvalue
    rw [hread, readDeclaration, hsplit]
    dsimp only
    rw [hproperty, if_neg hne, hjoin]
  · rw [hkinds, Token.depthOver_filter, Token.kinds_append_cons, Token.depthOver_append, hdepth,
      hcolon]
    rfl

theorem isStatement_declaration {ts before after : List Token} (h : Phrase ts)
    (hcut : Token.cutAt .colon 0 ts = (before, some after)) (hne : Token.join before ≠ "")
    (hhead : Text.headIs '@' (Token.join before) = false) (hclosed : depthOver 0 (kinds after) = 0)
    {gaps : List Char} (hgaps : ∀ c ∈ gaps, isGap c = true) :
    Scans ((Token.join before).toList ++ ':' :: (gaps ++ (Token.join after).toList))
      (IsStatement (.declaration (Token.join before) (Token.join after))) :=
  (isLast_declaration h hcut hne hhead hgaps).mono fun _ hts => ⟨hts.1, hts.2.trans hclosed⟩

/-! ## Lists of selectors -/

/-- Tokens without a comma outside parentheses are one selector, unless they have no text. -/
theorem selectorsOf_of_shielded {ts : List Token} (h : Shielded .comma 0 (kinds ts)) :
    selectorsOf ts = if Token.join ts = "" then [] else [Token.join ts] := by
  rw [selectorsOf, Token.splitAt_of_shielded h, List.map_singleton]
  split <;> simp_all

theorem selectorsOf_append {before after : List Token} {c : Token}
    (hshielded : Shielded .comma 0 (kinds before)) (hdepth : depthOver 0 (kinds before) = 0)
    (hcomma : c.kind = .comma) :
    selectorsOf (before ++ c :: after) =
      if Token.join before = "" then selectorsOf after
      else Token.join before :: selectorsOf after := by
  rw [selectorsOf, Token.splitAt_append hshielded hdepth hcomma, List.map_cons, List.filter_cons,
    selectorsOf]
  split <;> simp_all

/-- A comma outside parentheses keeps what stands around it apart. -/
theorem flowing_comma {us vs : List Token} {x : Token} (hx : x.kind = .comma)
    (hdepth : depthOver 0 (kinds us) = 0) :
    Flowing 0 (kinds (us ++ x :: vs)) ↔ Flowing 0 (kinds us) ∧ Flowing 0 (kinds vs) := by
  have hcomma : Flowing 0 [.comma] := ⟨by decide, by decide, trivial⟩
  rw [Token.kinds_append_cons, hx, ← List.singleton_append, Token.flowing_append,
    Token.flowing_append, hdepth]
  exact and_congr_right fun _ => and_iff_right hcomma

/-- Tokens that are read as these selectors when they stand in front of a brace. -/
structure IsSelectors (selectors : List String) (ts : List Token) : Prop where
  flowing : Flowing 0 (kinds ts)
  plain : ∀ t ∈ ts, t.kind ≠ .comment
  read : selectorsOf ts = selectors
  unmarked : ∃ u vs, ts = u :: vs ∧ u.kind ≠ .atKeyword

theorem IsSelectors.isHead {selectors : List String} {ts : List Token}
    (h : IsSelectors selectors ts) (hne : selectors ≠ []) :
    IsHead (fun body => .rule (selectors.map .selector ++ body)) ts := by
  refine ⟨h.flowing, h.plain, fun brace body => ?_⟩
  obtain ⟨u, vs, hcons, hword⟩ := h.unmarked
  obtain rfl := h.read
  rw [hcons] at hne ⊢
  exact readBlock_selectors hword hne

/-- One selector is read as before. -/
theorem scans_selector {ts : List Token} (hrun : Run ts) (hflowing : Flowing 0 (kinds ts))
    (hshielded : Shielded .comma 0 (kinds ts)) (hne : Token.join ts ≠ "")
    (hhead : Text.headIs '@' (Token.join ts) = false) :
    Scans (joinText ts) (fun us => IsSelectors [Token.join ts] us ∧ Token.join us = Token.join ts ∧
      Shielded .comma 0 (kinds us) ∧ depthOver 0 (kinds us) = depthOver 0 (kinds ts)) := by
  refine (scans_unmarked hrun hne hhead).mono ?_
  rintro us ⟨hshapes, hjoin, hword⟩
  have hkinds := kinds_of_shapes hshapes
  have hcommas : Shielded .comma 0 (kinds us) := by
    rw [hkinds]
    exact hshielded.filter
  refine ⟨⟨flowing_of_shapes hshapes hflowing, plain_of_shapes hshapes, ?_, hword⟩, hjoin, hcommas,
    ?_⟩
  · rw [selectorsOf_of_shielded hcommas, hjoin, if_neg hne]
  · rw [hkinds, Token.depthOver_filter]

/-- A selector, a comma and more selectors. -/
theorem IsSelectors.cons {selectors : List String} {us vs : List Token} {s : String} {x : Token}
    (hus : IsSelectors [s] us) (hjoin : Token.join us = s) (hne : s ≠ "")
    (hshielded : Shielded .comma 0 (kinds us)) (hdepth : depthOver 0 (kinds us) = 0)
    (hx : x.kind = .comma) (hvs : IsSelectors selectors vs) :
    IsSelectors (s :: selectors) (us ++ x :: vs) := by
  refine ⟨(flowing_comma hx hdepth).2 ⟨hus.flowing, hvs.flowing⟩,
    plain_around hus.plain (by rw [hx]; decide) hvs.plain, ?_, ?_⟩
  · rw [selectorsOf_append hshielded hdepth hx, hjoin, if_neg hne, hvs.read]
  · obtain ⟨u, more, rfl, hword⟩ := hus.unmarked
    exact ⟨u, more ++ x :: vs, rfl, hword⟩

/-- The selectors of a run are read as before when they are written between commas. -/
theorem scans_selectors {ts : List Token} (hrun : Run ts) (hflowing : Flowing 0 (kinds ts))
    (hne : selectorsOf ts ≠ []) (hhead : ∀ s ∈ selectorsOf ts, Text.headIs '@' s = false)
    {gaps : List Char} (hgaps : ∀ c ∈ gaps, isGap c = true) :
    Scans (Text.joinWith (',' :: gaps) ((selectorsOf ts).map String.toList))
      (IsSelectors (selectorsOf ts)) := by
  induction hlength : ts.length using Nat.strongRecOn generalizing ts with | _ n ih
  subst hlength
  rcases Token.splitAt_cases .comma 0 ts with
    ⟨hshielded, -⟩ | ⟨before, c, after, rfl, hcomma, hshielded, hdepth, -⟩
  · rw [selectorsOf_of_shielded hshielded] at hne hhead ⊢
    split at hne
    · exact absurd rfl hne
    next htext =>
    rw [if_neg htext] at hhead ⊢
    have hself := hhead _ List.mem_cons_self
    rw [List.map_singleton, Text.joinWith, toList_join]
    exact (scans_selector hrun hflowing hshielded htext hself).mono (fun us h => h.1)
  have hless : after.length < (before ++ c :: after).length := by
    simp only [List.length_append, List.length_cons]
    omega
  obtain ⟨hbefore, -, -, hafter⟩ := Token.run_append hrun
  obtain ⟨hflowing, hflowing'⟩ := (flowing_comma hcomma hdepth).1 hflowing
  rw [selectorsOf_append hshielded hdepth hcomma] at hne hhead ⊢
  split at hne
  · next htext =>
    -- The part in front of the comma has no text, so it is left out.
    rw [if_pos htext] at hhead ⊢
    exact ih _ hless hafter hflowing' hne hhead rfl
  · next htext =>
    rw [if_neg htext] at hhead ⊢
    obtain ⟨hself, hothers⟩ := List.forall_mem_cons.1 hhead
    have hfirst := scans_selector hbefore hflowing hshielded htext hself
    rw [List.map_cons, toList_join]
    by_cases hlast : selectorsOf after = []
    · rw [hlast]
      exact hfirst.mono (fun us h => h.1)
    · have hmore := ih _ hless hafter hflowing' hlast hothers rfl
      rw [Text.joinWith_cons (by simpa using hlast), List.cons_append]
      refine (hfirst.append ((hmore.after_gaps hgaps).after_single rfl rfl)
        (Token.separated_cons rfl _)).mono ?_
      rintro ts ⟨us, ws, rfl, ⟨hus, hjoin, hcommas, husdepth⟩, x, vs, rfl, hx, hvs⟩
      exact hus.cons hjoin htext hcommas (husdepth.trans hdepth) hx hvs

end Theming.Sheet
