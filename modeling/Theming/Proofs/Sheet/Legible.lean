import Theming.Proofs.Sheet.Endings
import Theming.Proofs.Sheet.Rereading

set_option autoImplicit false

/-! # What can be read again from a tree

The texts of a tree that is read without faults are scanned again as what they stand for, wherever a
layout writes them: entries and heads of condition blocks as a whole, selectors one by one. The value
at the end of a block may leave a parenthesis open; such a value is read again with the semicolon
that is written behind it (`Legible`).

Main statement: `legible_read`. -/

namespace Theming.Sheet

open Node
open Token (Flowing Run Scans Shielded kinds depthOver)

/-! ## Selectors -/

/-- A selector is the text of tokens without a comma outside parentheses. -/
structure IsPart (s : String) (ts : List Token) : Prop where
  run : Run ts
  flowing : Flowing 0 (kinds ts)
  commas : Shielded .comma 0 (kinds ts)
  text : Token.join ts = s
  nonempty : s ≠ ""

theorem exists_isPart {ts : List Token} (hrun : Run ts) (hflowing : Flowing 0 (kinds ts)) :
    ∀ s ∈ selectorsOf ts, ∃ us, IsPart s us := by
  induction hlength : ts.length using Nat.strongRecOn generalizing ts with | _ n ih
  subst hlength
  rcases Token.splitAt_cases .comma 0 ts with
    ⟨hcommas, -⟩ | ⟨before, c, after, rfl, hcomma, hcommas, hdepth, -⟩
  · intro s hs
    rw [selectorsOf_of_shielded hcommas] at hs
    split at hs
    · cases hs
    · next hne =>
      obtain rfl := List.mem_singleton.1 hs
      exact ⟨ts, hrun, hflowing, hcommas, rfl, hne⟩
  · have hless : after.length < (before ++ c :: after).length := by
      simp only [List.length_append, List.length_cons]
      omega
    obtain ⟨hbefore, -, -, hafter⟩ := Token.run_append hrun
    obtain ⟨hflowing, hflowing'⟩ := (flowing_comma hcomma hdepth).1 hflowing
    have hothers := ih _ hless hafter hflowing' rfl
    rw [selectorsOf_append hcommas hdepth hcomma]
    split
    · exact hothers
    · next hne =>
      exact List.forall_mem_cons.2 ⟨⟨before, hbefore, hflowing, hcommas, rfl, hne⟩, hothers⟩

/-! ## Entries -/

/-- A declaration or an at-word with its prelude, without a semicolon. -/
def entryText (property value : String) : List Char :=
  if Text.headIs '@' property then statementHead property value
  else property.toList ++ ": ".toList ++ value.toList

/-- An entry is read as before. If its value leaves a parenthesis open, the semicolon behind it is
    read as a part of the value. -/
structure LegibleEntry (property value : String) : Prop where
  closed : ClosesParens value →
    Scans (entryText property value) (IsStatement (.declaration property value))
  opened : ¬ ClosesParens value →
    Scans (entryText property value ++ [';']) (IsLast (.declaration property (value ++ ";")))

theorem closesParens_join_iff {ts : List Token} (hrun : Run ts) :
    ClosesParens (Token.join ts) ↔ depthOver 0 (kinds ts) = 0 := by
  refine ⟨depthOver_of_scan hrun, fun hdepth => ?_⟩
  obtain ⟨hshapes, -⟩ := (Token.rescans_joinText hrun).whole 0
  rw [ClosesParens, Token.scan, toList_join, Token.foldl_depthAfter, kinds_of_shapes hshapes,
    Token.depthOver_filter]
  exact hdepth

theorem legibleEntry_at {t : Token} {rest : List Token} (h : Phrase (t :: rest))
    (hkind : t.kind = .atKeyword) : LegibleEntry (String.ofList t.text) (Token.join rest) := by
  have htext : ∀ value, entryText (String.ofList t.text) value =
      statementHead (String.ofList t.text) value :=
    fun _ => if_pos (headIs_atKeyword h.run.1.2 hkind)
  constructor
  · intro hvalue
    rw [htext]
    exact isStatement_at h hkind ((closesParens_join_iff h.run.2.2).1 hvalue)
  · intro hvalue
    rw [htext]
    exact isLast_at_semicolon h hkind (mt (closesParens_join_iff h.run.2.2).2 hvalue)

theorem legibleEntry_declaration {ts before after : List Token} (h : Phrase ts)
    (hword : ∀ t, ts.head? = some t → t.kind ≠ .atKeyword)
    (hcut : Token.cutAt .colon 0 ts = (before, some after)) (hne : Token.join before ≠ "") :
    LegibleEntry (Token.join before) (Token.join after) := by
  have hproperty := headIs_property h hword hcut hne
  have hafter := run_after h.run hcut
  have htext : entryText (Token.join before) (Token.join after) =
      (Token.join before).toList ++ ':' :: ([' '] ++ (Token.join after).toList) := by
    rw [entryText, hproperty]
    simp
  constructor
  · intro hvalue
    rw [htext]
    exact isStatement_declaration h hcut hne hproperty ((closesParens_join_iff hafter).1 hvalue)
      isGap_space
  · intro hvalue
    rw [htext]
    exact isLast_declaration_semicolon h hcut hne hproperty
      (mt (closesParens_join_iff hafter).2 hvalue) isGap_space

/-- What is read from a phrase without faults: nothing, or an entry that leaves a parenthesis open if
    the phrase does. -/
theorem legibleEntry_cases {ts : List Token} (h : Phrase ts)
    (hfaults : (readStatement ts).faults = []) :
    (readStatement ts).nodes = [] ∨
      ∃ property value, (readStatement ts).nodes = [.declaration property value] ∧
        LegibleEntry property value ∧ (ClosesParens value ↔ depthOver 0 (kinds ts) = 0) := by
  rcases readStatement_cases hfaults with
    ⟨-, -, -, hnodes⟩ | ⟨t, rest, rfl, hkind, hnodes⟩ | ⟨before, after, hword, hcut, hne, hnodes⟩
  · exact Or.inl hnodes
  · refine Or.inr ⟨_, _, hnodes, legibleEntry_at h hkind, ?_⟩
    rw [closesParens_join_iff h.run.2.2]
    show _ ↔ depthOver (t.kind.depthAfter 0) (kinds rest) = 0
    rw [hkind]
    rfl
  · refine Or.inr ⟨_, _, hnodes, legibleEntry_declaration h hword hcut hne, ?_⟩
    rw [closesParens_join_iff (run_after h.run hcut)]
    obtain ⟨c, rfl, hcolon, -, hzero⟩ := Token.cutAt_some hcut
    rw [Token.kinds_append_cons, Token.depthOver_append, hzero, hcolon]
    rfl

/-! ## Legible nodes -/

/-- Nodes whose texts are read again, selectors one by one. Only the last entry of a block may leave a
    parenthesis open. -/
inductive Legible : Nat → List Node → Prop
  | nil (depth : Nat) : Legible depth []
  | comment {depth : Nat} {nodes : List Node} {body : String} (hbody : IsCommentBody body)
    (h : Legible depth nodes) : Legible depth (.comment body :: nodes)
  | entry {depth : Nat} {nodes : List Node} {property value : String}
    (hx : LegibleEntry property value) (hclosed : ClosesParens value) (h : Legible depth nodes) :
    Legible depth (.declaration property value :: nodes)
  | last {depth : Nat} {property value : String} (hx : LegibleEntry property value)
    (hopen : ¬ ClosesParens value) : Legible depth [.declaration property value]
  | rule {depth : Nat} {body nodes : List Node} {selectors : List String}
    (hdepth : depth < maxNesting) (hne : selectors ≠ [])
    (hselectors : ∀ s ∈ selectors, ∃ ts, IsPart s ts) (hbody : Legible (depth + 1) body)
    (h : Legible depth nodes) : Legible depth (.rule (selectors.map .selector ++ body) :: nodes)
  | condition {depth : Nat} {body nodes : List Node} {name prelude : String}
    (hdepth : depth < maxNesting)
    (hx : Scans (conditionHead name prelude) (IsHead (.condition name prelude)))
    (hbody : Legible (depth + 1) body) (h : Legible depth nodes) :
    Legible depth (.condition name prelude body :: nodes)

theorem Legible.kind_ne_selector {depth : Nat} {nodes : List Node} (h : Legible depth nodes) :
    ∀ n ∈ nodes, n.kind ≠ .selector := by
  induction h with
  | nil => exact fun _ hn => by cases hn
  | last => exact List.forall_mem_singleton.2 Kind.noConfusion
  | comment _ _ ih | entry _ _ _ ih | rule _ _ _ _ _ _ ih | condition _ _ _ _ _ ih =>
    exact List.forall_mem_cons.2 ⟨Kind.noConfusion, ih⟩

/-- The node of a comment in front of others. -/
theorem Legible.readComment {depth : Nat} {nodes : List Node} {t : Token} (h : Legible depth nodes)
    (hkind : t.kind = .comment) (hrun : Run [t]) (hfaults : (readComment t).faults = []) :
    Legible depth ((Sheet.readComment t).nodes ++ nodes) :=
  .comment (isCommentBody_read hkind hrun hfaults) h

/-- What is read from a closed statement, in front of other nodes. -/
theorem Legible.readStatement {depth : Nat} {nodes : List Node} {ts : List Token}
    (h : Legible depth nodes) (hphrase : Phrase ts) (hclosed : depthOver 0 (kinds ts) = 0)
    (hfaults : (readStatement ts).faults = []) :
    Legible depth ((Sheet.readStatement ts).nodes ++ nodes) := by
  rcases legibleEntry_cases hphrase hfaults with hnone | ⟨property, value, hnodes, hentry, hvalue⟩
  · rw [hnone]
    exact h
  · rw [hnodes]
    exact .entry hentry (hvalue.2 hclosed) h

/-- What is read from a statement that may be open. -/
theorem legible_readStatement {ts : List Token} (hphrase : Phrase ts)
    (hfaults : (readStatement ts).faults = []) (depth : Nat) :
    Legible depth (readStatement ts).nodes := by
  rcases legibleEntry_cases hphrase hfaults with hnone | ⟨property, value, hnodes, hentry, -⟩
  · rw [hnone]
    exact .nil depth
  · rw [hnodes]
    by_cases hvalue : ClosesParens value
    · exact .entry hentry hvalue (.nil depth)
    · exact .last hentry hvalue

/-- What is read from a block, in front of other nodes. -/
theorem Legible.readBlock {depth : Nat} {nodes : List Node} {head : List Token} {brace : Token}
    {body : Reading} (h : Legible depth nodes) (hphrase : Phrase head)
    (hdepth : depth < maxNesting) (hbody : body.faults = [] → Legible (depth + 1) body.nodes)
    (hfaults : (readBlock head brace body).faults = []) :
    Legible depth ((Sheet.readBlock head brace body).nodes ++ nodes) := by
  obtain ⟨hinner, t, rest, rfl, ⟨hkind, hnodes⟩ | ⟨-, hne, hnodes⟩⟩ := readBlock_cases hfaults
  · rw [hnodes]
    exact .condition hdepth (isHead_at hphrase hkind) (hbody hinner) h
  · rw [hnodes]
    exact .rule hdepth hne (exists_isPart hphrase.run hphrase.flowing) (hbody hinner) h

/-- **What is read from chunks in order is legible**, if it is read without faults. -/
theorem Ordered.legible {chunks : List Chunk} (h : Ordered chunks) {depth : Nat}
    (hsane : ∀ c ∈ chunks, c.Sane) (hfaults : (Chunk.readAll depth chunks).faults = []) :
    Legible depth (Chunk.readAll depth chunks).nodes := by
  induction h generalizing depth with
  | nil => exact .nil depth
  | comment t _ ih =>
    obtain ⟨hself, hrest⟩ := List.forall_mem_cons.1 hsane
    obtain ⟨hfirst, hmore⟩ := List.append_eq_nil_iff.1 hfaults
    cases hself with
    | comment hkind hrun => exact (ih hrest hmore).readComment hkind hrun hfirst
  | statement hclosed _ ih =>
    obtain ⟨hself, hrest⟩ := List.forall_mem_cons.1 hsane
    obtain ⟨hfirst, hmore⟩ := List.append_eq_nil_iff.1 hfaults
    cases hself with
    | statement hphrase _ => exact (ih hrest hmore).readStatement hphrase hclosed hfirst
  | last ts =>
    obtain ⟨hself, -⟩ := List.forall_mem_cons.1 hsane
    obtain ⟨hfirst, -⟩ := List.append_eq_nil_iff.1 hfaults
    cases hself with
    | statement hphrase _ =>
      have hlast := legible_readStatement hphrase hfirst depth
      rwa [← List.append_nil (readStatement ts).nodes] at hlast
  | cut ts t _ _ =>
    -- The stray brace behind the statement is a fault.
    obtain ⟨-, hmore⟩ := List.append_eq_nil_iff.1 hfaults
    cases (List.append_eq_nil_iff.1 hmore).1
  | stray t _ _ => cases (List.append_eq_nil_iff.1 hfaults).1
  | @block head brace body rest closed _ _ ihbody ih =>
    obtain ⟨hself, hrest⟩ := List.forall_mem_cons.1 hsane
    rw [Chunk.readAll] at hfaults ⊢
    obtain ⟨hfirst, hmore⟩ := List.append_eq_nil_iff.1 hfaults
    cases hself with
    | block hhead hinner =>
      rw [Chunk.read] at hfirst ⊢
      split at hfirst
      · cases hfirst
      · next hdepth =>
        rw [if_neg hdepth]
        obtain ⟨hblock, -⟩ := List.append_eq_nil_iff.1 hfirst
        have hlegible := (ih hrest hmore).readBlock hhead (Nat.lt_of_not_le hdepth)
          (fun hbody => ihbody hinner hbody) hblock
        simpa [Reading.append] using hlegible

/-- **A tree that is read without faults, from firm tokens, is legible.** -/
theorem legible_read {template : String} (hfaults : faults template = [])
    (hwords : ∀ t ∈ Token.scan template, t.IsFirm) : Legible 0 (read template).nodes :=
  (ordered_outline _).legible (sane_outline (Token.run_scanFrom hwords)) hfaults

end Theming.Sheet
