import Theming.Proofs.Sheet.Phrases

set_option autoImplicit false

/-! # Statements that leave a parenthesis open

A semicolon ends a statement outside parentheses only. So a statement that leaves one open goes on to
the end of its block: in an outline it is the last chunk, unless a stray brace cuts it off
(`ordered_outline`). If it is written with a semicolon behind it, the semicolon becomes a part of it
(`exists_semicolon`). -/

namespace Theming.Sheet

open Token (Flowing Run Scans kinds depthOver isGap joinText)

/-! ## Open statements stand last -/

/-- Statements close their parentheses, except for the last one of a block and those in front of a
    stray brace. -/
inductive Ordered : List Chunk → Prop
  | nil : Ordered []
  | comment (t : Token) {rest : List Chunk} (h : Ordered rest) : Ordered (.comment t :: rest)
  | statement {ts : List Token} {rest : List Chunk} (hclosed : depthOver 0 (kinds ts) = 0)
    (h : Ordered rest) : Ordered (.statement ts :: rest)
  | last (ts : List Token) : Ordered [.statement ts]
  | cut (ts : List Token) (t : Token) {rest : List Chunk} (h : Ordered rest) :
    Ordered (.statement ts :: .stray t :: rest)
  | stray (t : Token) {rest : List Chunk} (h : Ordered rest) : Ordered (.stray t :: rest)
  | block (head : List Token) (brace : Token) {body rest : List Chunk} (closed : Bool)
    (hbody : Ordered body) (h : Ordered rest) : Ordered (.block head brace body closed :: rest)

/-- Chunks, last one first, that others can follow. -/
def Extendable (chunks : List Chunk) : Prop :=
  ∀ more, Ordered more → Ordered (chunks.reverse ++ more)

namespace Extendable

variable {chunks : List Chunk}

theorem ordered (h : Extendable chunks) : Ordered chunks.reverse := by
  have hself := h [] .nil
  rwa [List.append_nil] at hself

/-- Chunks in front of others that are put in front of what follows. -/
theorem append (h : Extendable chunks) (added : List Chunk)
    (hadded : ∀ more, Ordered more → Ordered (added.reverse ++ more)) :
    Extendable (added ++ chunks) := fun more hmore => by
  rw [List.reverse_append, List.append_assoc]
  exact h _ (hadded more hmore)

end Extendable

namespace Draft

/-- All that was ended before the statement at hand is in order. -/
structure Ordered (d : Draft) : Prop where
  depth : d.depth = depthOver 0 (kinds d.pending.reverse)
  chunks : Extendable d.chunks
  frames : ∀ f ∈ d.frames, Extendable f.before

variable {d : Draft}

theorem ordered_push (h : d.Ordered) (t : Token) : (d.push t).Ordered := by
  refine ⟨?_, h.chunks, h.frames⟩
  show Token.depthAfter d.depth t = depthOver 0 (kinds (t :: d.pending).reverse)
  rw [List.reverse_cons, Token.kinds_append_cons, Token.depthOver_append, ← h.depth,
    Token.depthAfter_eq]
  rfl

theorem ordered_idle {frames : List Frame} {chunks : List Chunk} (hchunks : Extendable chunks)
    (hframes : ∀ f ∈ frames, Extendable f.before) : Ordered ⟨frames, chunks, [], 0⟩ :=
  ⟨rfl, hchunks, hframes⟩

/-- Ending the statement leaves chunks that can end a block, or be followed by a stray brace. -/
theorem ordered_flush (h : d.Ordered) :
    ∃ chunks, d.flush = ⟨d.frames, chunks, [], 0⟩ ∧ Sheet.Ordered chunks.reverse ∧
      (∀ t, Extendable (.stray t :: chunks)) ∧ (d.depth = 0 → Extendable chunks) := by
  obtain ⟨frames, chunks, pending, depth⟩ := d
  cases pending with
  | nil =>
    obtain rfl : depth = 0 := h.depth
    exact ⟨chunks, rfl, h.chunks.ordered, fun t => h.chunks.append [.stray t]
      (fun more hmore => .stray t hmore), fun _ => h.chunks⟩
  | cons u more =>
    let ts := (u :: more).reverse
    refine ⟨.statement ts :: chunks, rfl, ?_, fun t => ?_, fun hzero => ?_⟩
    · rw [List.reverse_cons]
      exact h.chunks _ (.last ts)
    · exact h.chunks.append [.stray t, .statement ts] (fun more hmore => .cut ts t hmore)
    · exact h.chunks.append [.statement ts]
        (fun more hmore => .statement (h.depth.symm.trans hzero) hmore)

theorem ordered_step (h : d.Ordered) (t : Token) : (d.step t).Ordered := by
  obtain ⟨chunks, hflush, hordered, hstray, hchunks⟩ := ordered_flush h
  unfold step
  split
  · exact ordered_idle (fun _ hmore => hmore) (List.forall_mem_cons.2 ⟨h.chunks, h.frames⟩)
  · rw [hflush]
    unfold closeBlock
    dsimp only
    split
    · exact ordered_idle (hstray t) h.frames
    · next f frames hframes =>
      have hall := h.frames
      rw [hframes] at hall
      obtain ⟨hbefore, hframes⟩ := List.forall_mem_cons.1 hall
      exact ordered_idle (hbefore.append [_]
        (fun more hmore => .block f.head f.brace true hordered hmore)) hframes
  · split
    · next hzero =>
      rw [hflush]
      exact ordered_idle (hchunks hzero) h.frames
    · exact ordered_push h t
  · split
    · exact ⟨h.depth, h.chunks.append [.comment t]
        (fun more hmore => .comment t hmore), h.frames⟩
    · exact ordered_push h t
  · exact ordered_push h t

theorem ordered_foldl (h : d.Ordered) (ts : List Token) : (ts.foldl step d).Ordered := by
  induction ts generalizing d with
  | nil => exact h
  | cons t rest ih => exact ih (ordered_step h t)

theorem ordered_closeAll {frames : List Frame} {chunks : List Chunk}
    (hchunks : Sheet.Ordered chunks.reverse) (hframes : ∀ f ∈ frames, Extendable f.before) :
    Sheet.Ordered (closeAll frames chunks) := by
  induction frames generalizing chunks with
  | nil => exact hchunks
  | cons f rest ih =>
    obtain ⟨hbefore, hrest⟩ := List.forall_mem_cons.1 hframes
    refine ih ?_ hrest
    rw [List.reverse_cons]
    exact hbefore _ (.block f.head f.brace false hchunks .nil)

end Draft

/-- **In an outline, open statements stand last.** -/
theorem ordered_outline (ts : List Token) : Ordered (outline ts) := by
  have hempty : Draft.empty.Ordered :=
    Draft.ordered_idle (fun _ hmore => hmore) (fun _ hf => absurd hf List.not_mem_nil)
  have hfold := Draft.ordered_foldl hempty ts
  obtain ⟨chunks, hflush, hordered, -⟩ := Draft.ordered_flush hfold
  unfold outline Draft.finish
  rw [hflush]
  exact Draft.ordered_closeAll hordered hfold.frames

/-! ## A semicolon behind an open statement -/

namespace Token

/-- What is joined behind the last token of a kind that is kept. -/
theorem joinAfter_append {t : Token} (h : t.kind ≠ .comment) (last : Nat) (gap : Bool)
    (front us : List Token) :
    joinAfter last gap (front ++ t :: us) =
      joinAfter last gap (front ++ [t]) ++ joinAfter t.stop false us := by
  induction front generalizing last gap with
  | nil =>
    rw [List.nil_append, List.nil_append, joinAfter, joinAfter, if_neg h, if_neg h, joinAfter]
    dsimp only
    rw [List.append_nil]
  | cons u rest ih =>
    rw [List.cons_append, List.cons_append, joinAfter, joinAfter]
    split
    · exact ih last true
    · dsimp only
      rw [ih, List.append_assoc, List.append_assoc, List.append_assoc]

theorem joinText_append {t : Token} (h : t.kind ≠ .comment) (front us : List Token) :
    joinText (front ++ t :: us) = joinText (front ++ [t]) ++ joinAfter t.stop false us := by
  induction front with
  | nil =>
    rw [List.nil_append, List.nil_append, joinText, joinText, if_neg h, if_neg h, joinAfter,
      List.append_nil]
  | cons u rest ih =>
    rw [List.cons_append, List.cons_append, joinText, joinText]
    split
    · exact ih
    · rw [joinAfter_append h, List.append_assoc]

theorem joinAfter_comments {us : List Token} (h : ∀ u ∈ us, u.kind = .comment) (last : Nat)
    (gap : Bool) : joinAfter last gap us = [] := by
  induction us generalizing gap with
  | nil => rfl
  | cons u rest ih =>
    obtain ⟨hself, hrest⟩ := List.forall_mem_cons.1 h
    rw [joinAfter, if_pos hself, ih hrest]

/-- The semicolon right behind a token. -/
def semicolonAfter (t : Token) : Token := ⟨.semicolon, [';'], t.stop, t.stop + 1⟩

theorem joinAfter_semicolonAfter (t : Token) :
    joinAfter t.stop false [t.semicolonAfter] = [';'] := by
  simp [joinAfter, semicolonAfter]

/-- A semicolon can be written behind a run that ends with no comment. -/
theorem run_semicolonAfter {t : Token} (h : t.kind ≠ .comment) {front : List Token}
    (hrun : Run (front ++ [t])) : Run (front ++ [t, t.semicolonAfter]) := by
  induction front with
  | nil =>
    obtain ⟨⟨hfirm, tail, hcut⟩, -, -⟩ := hrun
    have hself : t.CutBefore ([';'] ++ []) :=
      hcut.follows hfirm h (Or.inr (separated_cons rfl []))
    have hsemicolon : t.semicolonAfter.CutBefore [] := ⟨';', [], rfl, rfl, rfl⟩
    exact ⟨⟨hfirm, tail, hcut⟩, fun _ => ⟨[], hself⟩, ⟨Kind.noConfusion, [], hsemicolon⟩, trivial,
      trivial⟩
  | cons u rest ih =>
    obtain ⟨hself, hmeets, hrest⟩ := hrun
    refine ⟨hself, ?_, ih hrest⟩
    cases rest with
    | nil => exact hmeets
    | cons v more => exact hmeets

/-- The last token that is no comment. -/
theorem exists_last {ts : List Token} (h : ∃ t ∈ ts, t.kind ≠ .comment) :
    ∃ front t comments, ts = front ++ t :: comments ∧ t.kind ≠ .comment ∧
      ∀ c ∈ comments, c.kind = .comment := by
  induction ts with
  | nil =>
    obtain ⟨t, ht, -⟩ := h
    cases ht
  | cons t rest ih =>
    by_cases hrest : ∃ u ∈ rest, u.kind ≠ .comment
    · obtain ⟨front, u, comments, rfl, hu, hcomments⟩ := ih hrest
      exact ⟨t :: front, u, comments, rfl, hu, hcomments⟩
    · have hcomments : ∀ c ∈ rest, c.kind = .comment := by simpa using hrest
      obtain ⟨u, hu, hkind⟩ := h
      refine ⟨[], t, rest, rfl, ?_, hcomments⟩
      rcases List.mem_cons.1 hu with rfl | hmem
      · exact hkind
      · exact absurd (hcomments u hmem) hkind

end Token

theorem depthOver_comments {us : List Token} (h : ∀ u ∈ us, u.kind = .comment) (depth : Nat) :
    depthOver depth (kinds us) = depth := by
  have hnone : (kinds us).filter (· ≠ .comment) = [] := by
    apply List.filter_eq_nil_iff.2
    intro k hk
    obtain ⟨u, hu, rfl⟩ := List.mem_map.1 hk
    simp [h u hu]
  rw [← Token.depthOver_filter, hnone]
  rfl

/-- Tokens that leave a parenthesis open are joined to a text behind which a semicolon can be
    written, as one more token of theirs. -/
theorem exists_semicolon {ts : List Token} (hopen : depthOver 0 (kinds ts) ≠ 0) :
    ∃ core s, core <+: ts ∧ s.kind = .semicolon ∧ depthOver 0 (kinds core) = depthOver 0 (kinds ts) ∧
      Token.join (core ++ [s]) = Token.join ts ++ ";" ∧
      ∀ front, Run (front ++ ts) → Run (front ++ (core ++ [s])) := by
  have hsome : ∃ t ∈ ts, t.kind ≠ .comment := by
    by_cases h : ∃ t ∈ ts, t.kind ≠ .comment
    · exact h
    · exact absurd (depthOver_comments (by simpa using h) 0) hopen
  obtain ⟨front, t, comments, rfl, hkind, hcomments⟩ := Token.exists_last hsome
  refine ⟨front ++ [t], t.semicolonAfter, ⟨comments, by simp⟩, rfl, ?_, ?_, fun before hrun => ?_⟩
  · rw [Token.kinds_append_cons, Token.kinds_append_cons, Token.depthOver_append,
      Token.depthOver_append]
    exact (depthOver_comments hcomments (t.kind.depthAfter (depthOver 0 (kinds front)))).symm
  · rw [← String.toList_inj, String.toList_append, toList_join, toList_join, List.append_assoc,
      List.singleton_append, Token.joinText_append hkind, Token.joinText_append hkind front comments,
      Token.joinAfter_semicolonAfter, Token.joinAfter_comments hcomments, List.append_nil]
    rfl
  · have hparts : before ++ (front ++ t :: comments) = (before ++ front ++ [t]) ++ comments := by
      simp
    rw [hparts] at hrun
    have hlast := Token.run_semicolonAfter hkind (Token.run_append hrun).1
    simpa using hlast

/-! ## Statements that are written with their semicolon -/

/-- The phrase with a semicolon inside parentheses at its end. -/
theorem Phrase.semicolon {front ts core : List Token} {s : Token} (h : Phrase (front ++ ts))
    (hne : front ≠ []) (hcore : core <+: ts) (hkind : s.kind = .semicolon)
    (hopen : depthOver (depthOver 0 (kinds front)) (kinds core) ≠ 0)
    (hrun : Run (front ++ (core ++ [s]))) : Phrase (front ++ (core ++ [s])) := by
  obtain ⟨rest, rfl⟩ := hcore
  refine ⟨hrun, ?_, ?_⟩
  · have hflowing := h.flowing
    have hlast : Flowing (depthOver (depthOver 0 (kinds front)) (kinds core)) [s.kind] := by
      rw [hkind]
      exact ⟨by decide, fun _ => hopen, trivial⟩
    simp only [kinds, List.map_append, Token.flowing_append] at hflowing ⊢
    exact ⟨hflowing.1, hflowing.2.1, hlast⟩
  · obtain ⟨u, more, rfl⟩ := List.exists_cons_of_ne_nil hne
    exact h.head

theorem join_ne_empty {ts : List Token} (hrun : Run ts) (hopen : depthOver 0 (kinds ts) ≠ 0) :
    Token.join ts ≠ "" := by
  intro hempty
  have hnone : ([] : List Token).map Token.shape = Token.shapes ts :=
    (shapes_of_joinText_eq_nil hrun (join_eq_empty_iff.1 hempty)).symm
  rw [← Token.depthOver_filter, ← kinds_of_shapes hnone] at hopen
  exact hopen rfl

/-- An at-word whose prelude leaves a parenthesis open takes the semicolon behind it in. -/
theorem isLast_at_semicolon {t : Token} {rest : List Token} (h : Phrase (t :: rest))
    (hkind : t.kind = .atKeyword) (hopen : depthOver 0 (kinds rest) ≠ 0) :
    Scans (statementHead (String.ofList t.text) (Token.join rest) ++ [';'])
      (IsLast (.declaration (String.ofList t.text) (Token.join rest ++ ";"))) := by
  obtain ⟨core, s, hcore, hs, hdepth, hjoin, hrun⟩ := exists_semicolon hopen
  have hzero : depthOver 0 (kinds [t]) = 0 := by
    rw [kinds, List.map_singleton, hkind]
    rfl
  have hself : Phrase ([t] ++ rest) := h
  have hphrase : Phrase ([t] ++ (core ++ [s])) :=
    hself.semicolon (List.cons_ne_nil t []) hcore hs (by rwa [hzero, hdepth]) (hrun [t] h.run)
  have hne := join_ne_empty h.run.2.2 hopen
  have hne' : Token.join rest ++ ";" ≠ "" := fun hempty => by
    have hlist := congrArg String.toList hempty
    simp at hlist
  have htext : statementHead (String.ofList t.text) (Token.join rest) ++ [';'] =
      statementHead (String.ofList t.text) (Token.join rest ++ ";") := by
    rw [statementHead, statementHead, if_neg hne, if_neg hne', String.toList_append,
      List.append_assoc]
    rfl
  rw [htext, ← hjoin]
  exact (isLast_at hphrase hkind).mono fun _ hts => hts.1

/-- A declaration whose value leaves a parenthesis open takes the semicolon behind it in. -/
theorem isLast_declaration_semicolon {ts before after : List Token} (h : Phrase ts)
    (hcut : Token.cutAt .colon 0 ts = (before, some after)) (hne : Token.join before ≠ "")
    (hhead : Text.headIs '@' (Token.join before) = false) (hopen : depthOver 0 (kinds after) ≠ 0)
    {gaps : List Char} (hgaps : ∀ c ∈ gaps, isGap c = true) :
    Scans ((Token.join before).toList ++ ':' :: (gaps ++ (Token.join after).toList) ++ [';'])
      (IsLast (.declaration (Token.join before) (Token.join after ++ ";"))) := by
  obtain ⟨c, rfl, hcolon, hshielded, hzero⟩ := Token.cutAt_some hcut
  obtain ⟨core, s, hcore, hs, hdepth, hjoin, hrun⟩ := exists_semicolon hopen
  have hparts : ∀ us, before ++ c :: us = (before ++ [c]) ++ us := by simp
  have hfront : depthOver 0 (kinds (before ++ [c])) = 0 := by
    rw [Token.kinds_append_cons, Token.depthOver_append, hzero, hcolon]
    rfl
  rw [hparts] at h
  have hphrase : Phrase ((before ++ [c]) ++ (core ++ [s])) :=
    h.semicolon (by simp) hcore hs (by rwa [hfront, hdepth]) (hrun _ h.run)
  have hcut' : Token.cutAt .colon 0 (before ++ c :: (core ++ [s])) = (before, some (core ++ [s])) :=
    Token.cutAt_append hshielded hzero hcolon _
  rw [← hparts] at hphrase
  have hlast := (isLast_declaration hphrase hcut' hne hhead hgaps).mono fun _ hts => hts.1
  rw [hjoin, String.toList_append] at hlast
  simpa using hlast

end Theming.Sheet
