import Theming.Proofs.Sheet.Phrases
import Theming.Proofs.Sheet.Shape

set_option autoImplicit false

/-! # Reading what was written

A flat stylesheet is one that is read without faults, with blocks inside condition blocks only, with
no selector that starts with an at sign, with values that close their parentheses, and with no word
that is cut off for what does not follow it (`IsFlatSheet`). The nodes that are read from such a
template are regular, since their texts are joined from the tokens of phrases. So they can be written
in either layout, with their comments, and are read again as they were.

Main statement: `parse_serialize`. -/

namespace Theming.Sheet

open Node
open Token (Run depthOver kinds)

/-! ## Flat nodes -/

/-- A value at whose end no parenthesis is open. A closing one that matches none does not count, so
    this asks for less than balanced parentheses. -/
def ClosesParens (value : String) : Prop := (Token.scan value).foldl Token.depthAfter 0 = 0
deriving Decidable

/-- A selector starts with no at sign, the value of a declaration closes its parentheses, and no
    block lies in a rule. -/
structure Node.IsFlat (n : Node) : Prop where
  selector : n.kind = .selector → Text.headIs '@' (n.prop textKey) = false
  value : n.kind = .declaration → ClosesParens (n.prop valueKey)
  body : n.kind = .rule → ∀ m ∈ n.children, m.kind ≠ .rule ∧ m.kind ≠ .condition

instance : DecidablePred Node.IsFlat := fun n =>
  decidable_of_iff
    ((n.kind = .selector → Text.headIs '@' (n.prop textKey) = false) ∧
      (n.kind = .declaration → ClosesParens (n.prop valueKey)) ∧
      (n.kind = .rule → ∀ m ∈ n.children, m.kind ≠ .rule ∧ m.kind ≠ .condition))
    ⟨fun ⟨hselector, hvalue, hbody⟩ => ⟨hselector, hvalue, hbody⟩,
      fun ⟨hselector, hvalue, hbody⟩ => ⟨hselector, hvalue, hbody⟩⟩

/-- Some nodes and everything below them are flat. -/
def Flat (nodes : List Node) : Prop := ∀ n ∈ preorderAll nodes, n.IsFlat

theorem flat_append {a b : List Node} : Flat (a ++ b) ↔ Flat a ∧ Flat b := by
  rw [Flat, preorderAll_append, List.forall_mem_append]
  rfl

theorem flat_singleton {n : Node} : Flat [n] ↔ n.IsFlat ∧ Flat n.children := by
  obtain ⟨kind, properties, children⟩ := n
  rw [Flat, preorderAll, preorderAll, List.append_nil, preorder, List.forall_mem_cons]
  rfl

theorem flat_cons {n : Node} {rest : List Node} :
    Flat (n :: rest) ↔ (n.IsFlat ∧ Flat n.children) ∧ Flat rest := by
  rw [← flat_singleton]
  exact flat_append (a := [n])

theorem Flat.selectors {texts : List String} (h : Flat (texts.map selector)) :
    ∀ s ∈ texts, Text.headIs '@' s = false := by
  induction texts with
  | nil => exact fun _ hs => by cases hs
  | cons text rest ih =>
    obtain ⟨⟨hself, -⟩, hrest⟩ := flat_cons.1 h
    exact List.forall_mem_cons.2 ⟨hself.selector rfl, ih hrest⟩

/-! ## Regular nodes -/

theorem Regular.append {depth : Nat} {a b : List Node} (ha : Regular depth a)
    (hb : Regular depth b) : Regular depth (a ++ b) := by
  induction ha with
  | nil depth => exact hb
  | comment hbody _ ih => exact .comment hbody (ih hb)
  | declaration hproperty hx _ ih => exact .declaration hproperty hx (ih hb)
  | statement hname hx _ ih => exact .statement hname hx (ih hb)
  | rule hdepth hx hentries hbody _ _ ih => exact .rule hdepth hx hentries hbody (ih hb)
  | condition hdepth hx hbody _ _ ih => exact .condition hdepth hx hbody (ih hb)

/-- Regular nodes that are no blocks are entries. -/
theorem Regular.isEntry {depth : Nat} {nodes : List Node} (h : Regular depth nodes)
    (hflat : ∀ n ∈ nodes, n.kind ≠ .rule ∧ n.kind ≠ .condition) :
    ∀ n ∈ nodes, n.isEntry = true := by
  induction h with
  | nil depth => exact fun _ hn => by cases hn
  | comment _ _ ih | declaration _ _ _ ih | statement _ _ _ ih =>
    exact List.forall_mem_cons.2 ⟨rfl, ih (List.forall_mem_cons.1 hflat).2⟩
  | rule => exact absurd rfl (hflat _ List.mem_cons_self).1
  | condition => exact absurd rfl (hflat _ List.mem_cons_self).2

/-! ## Comments -/

/-- A character in front brings no closing mark unless it completes one. -/
theorem not_infix_cons {c : Char} {s : List Char}
    (hmark : ∀ more, c = '*' → s = '/' :: more → False) (h : ¬ ['*', '/'] <:+: s) : ¬ ['*', '/'] <:+: c :: s := by
  rw [List.infix_cons_iff]
  rintro (⟨more, hmore⟩ | hinside)
  · obtain ⟨hc, hs⟩ := List.cons.inj hmore
    exact hmark more hc.symm hs.symm
  · exact h hinside

/-- A comment goes up to the first closing mark, or to the end if there is none. -/
theorem commentLength_spec (s : List Char) :
    (∃ inner after, s = inner ++ '*' :: '/' :: after ∧ ¬ ['*', '/'] <:+: inner ∧
        Token.commentLength s = inner.length + 2) ∨
      (¬ ['*', '/'] <:+: s ∧ Token.commentLength s = s.length) := by
  fun_induction Token.commentLength s with
  | case1 => exact Or.inr ⟨by simp, rfl⟩
  | case2 rest => exact Or.inl ⟨[], rest, rfl, by simp, rfl⟩
  | case3 c rest hmark ih =>
    rcases ih with ⟨inner, after, rfl, hinner, hlength⟩ | ⟨hrest, hlength⟩
    · refine Or.inl ⟨c :: inner, after, rfl, not_infix_cons ?_ hinner, by rw [hlength]; rfl⟩
      rintro more rfl rfl
      exact hmark (more ++ '*' :: '/' :: after) rfl rfl
    · exact Or.inr ⟨not_infix_cons hmark hrest, by rw [hlength, List.length_cons]⟩

/-- The closing mark of a closed comment does not overlap its opening mark. -/
theorem infix_of_isClosedComment {rest : List Char}
    (h : isClosedComment ('/' :: '*' :: rest) = true) : ['*', '/'] <:+: rest := by
  obtain ⟨hends, hlength⟩ := Bool.and_eq_true_iff.1 h
  obtain ⟨before, hbefore⟩ := Option.isSome_iff_exists.1 hends
  have htext := Text.dropSuffix?_eq_some_iff.1 hbefore
  match before, htext with
  | [], htext => cases (List.cons.inj htext).1
  | [_], htext =>
    obtain rfl : rest = ['/'] := (List.cons.inj (List.cons.inj htext).2).2
    cases hlength
  | _ :: _ :: inner, htext =>
    obtain rfl : rest = inner ++ ['*', '/'] := (List.cons.inj (List.cons.inj htext).2).2
    exact (List.suffix_append inner _).isInfix

/-- What is read from a comment can stand in a comment. -/
theorem isCommentBody_read {t : Token} (hkind : t.kind = .comment) (hrun : Run [t])
    (hfaults : (readComment t).faults = []) :
    IsCommentBody (String.ofList (commentBody t.text)) := by
  obtain ⟨tail, hcut⟩ := hrun.1.2
  obtain ⟨rest, htext, hlength⟩ := hcut.comment hkind
  have hclosed : isClosedComment ('/' :: '*' :: rest) = true := by
    rw [← htext]
    unfold readComment at hfaults
    by_cases hc : isClosedComment t.text = true
    · exact hc
    · rw [if_neg hc] at hfaults
      cases hfaults
  rcases commentLength_spec (rest ++ tail) with ⟨inner, after, happend, hinner, hcount⟩ | ⟨hnone, -⟩
  · have hmarked : rest ++ tail = inner ++ ['*', '/'] ++ after := by
      rw [happend, List.append_assoc]
      rfl
    obtain ⟨rfl, -⟩ := List.append_inj hmarked (by rw [← hlength, hcount, List.length_append]; rfl)
    rw [htext, commentBody_marked]
    refine ⟨?_, fun hinside => hinner ?_⟩
    · rw [String.toList_ofList]
      exact Text.isTrimmed_trim inner
    · rw [String.toList_ofList] at hinside
      exact hinside.trans (Text.isInfix_trim inner)
  · exact absurd ((infix_of_isClosedComment hclosed).trans (List.prefix_append rest tail).isInfix)
      hnone

/-! ## Statements and blocks -/

/-- The node of an at-word with its prelude is regular. -/
theorem regular_at {depth : Nat} {t : Token} {rest : List Token} (h : Phrase (t :: rest))
    (hkind : t.kind = .atKeyword) (hvalue : ClosesParens (Token.join rest)) :
    Regular depth [.declaration (String.ofList t.text) (Token.join rest)] :=
  .statement (headIs_atKeyword h.run.1.2 hkind)
    (isStatement_at h hkind (depthOver_of_scan h.run.2.2 hvalue)) (.nil depth)

/-- The node of a declaration is regular. -/
theorem regular_declaration {depth : Nat} {ts before after : List Token} (h : Phrase ts)
    (hword : ∀ t, ts.head? = some t → t.kind ≠ .atKeyword)
    (hcut : Token.cutAt .colon 0 ts = (before, some after)) (hne : Token.join before ≠ "")
    (hvalue : ClosesParens (Token.join after)) :
    Regular depth [.declaration (Token.join before) (Token.join after)] := by
  have hproperty := headIs_property h hword hcut hne
  have hclosed := depthOver_of_scan (run_after h.run hcut) hvalue
  exact .declaration hproperty (fun gaps hgaps => isStatement_declaration h hcut hne hproperty
    hclosed hgaps) (.nil depth)

/-- What is read from a statement is regular. -/
theorem regular_readStatement {depth : Nat} {ts : List Token} (h : Phrase ts)
    (hfaults : (readStatement ts).faults = []) (hflat : Flat (readStatement ts).nodes) :
    Regular depth (readStatement ts).nodes := by
  rcases readStatement_cases hfaults with
    ⟨-, -, -, hnodes⟩ | ⟨t, rest, rfl, hkind, hnodes⟩ | ⟨before, after, hword, hcut, hne, hnodes⟩
  · rw [hnodes]
    exact .nil depth
  · rw [hnodes] at hflat ⊢
    exact regular_at h hkind ((flat_singleton.1 hflat).1.value rfl)
  · rw [hnodes] at hflat ⊢
    exact regular_declaration h hword hcut hne ((flat_singleton.1 hflat).1.value rfl)

/-- What is read from a block is regular if its body is. -/
theorem regular_readBlock {depth : Nat} {head : List Token} {brace : Token} {body : Reading}
    (h : Phrase head) (hdepth : depth < maxNesting)
    (hbody : body.faults = [] → Flat body.nodes → Regular (depth + 1) body.nodes)
    (hfaults : (readBlock head brace body).faults = [])
    (hflat : Flat (readBlock head brace body).nodes) :
    Regular depth (readBlock head brace body).nodes := by
  obtain ⟨hinner, t, rest, rfl, ⟨hkind, hnodes⟩ | ⟨hkind, hempty, hnodes⟩⟩ := readBlock_cases hfaults
  · rw [hnodes] at hflat ⊢
    exact .condition hdepth (isHead_at h hkind) (hbody hinner (flat_singleton.1 hflat).2)
      (.nil depth)
  · rw [hnodes] at hflat ⊢
    obtain ⟨⟨-, -, hblocks⟩, hchildren⟩ := flat_singleton.1 hflat
    obtain ⟨hselectors, hentries⟩ := flat_append.1 hchildren
    have hregular := hbody hinner hentries
    have hentries := hregular.isEntry
      (fun n hn => hblocks rfl n (List.mem_append_right _ hn))
    exact .rule hdepth (fun gaps hgaps => (scans_selectors h.run h.flowing hempty
      hselectors.selectors hgaps).mono (fun ts hts => hts.isHead hempty)) hentries hregular
      (.nil depth)

/-- Chunks are read as regular nodes one after the other. -/
theorem regular_readAll {depth : Nat} {chunks : List Chunk}
    (h : ∀ c ∈ chunks, (c.read depth).faults = [] → Flat (c.read depth).nodes →
      Regular depth (c.read depth).nodes)
    (hfaults : (Chunk.readAll depth chunks).faults = [])
    (hflat : Flat (Chunk.readAll depth chunks).nodes) :
    Regular depth (Chunk.readAll depth chunks).nodes := by
  induction chunks with
  | nil => exact .nil depth
  | cons c rest ih =>
    obtain ⟨hself, hrest⟩ := List.forall_mem_cons.1 h
    obtain ⟨hfirst, hmore⟩ := List.append_eq_nil_iff.1 hfaults
    obtain ⟨hflat, hflat'⟩ := flat_append.1 hflat
    exact (hself hfirst hflat).append (ih hrest hmore hflat')

/-- **What is read from a chunk is regular**, if it is flat and read without faults. -/
theorem Chunk.Sane.regular {c : Chunk} (h : c.Sane) {depth : Nat}
    (hfaults : (c.read depth).faults = []) (hflat : Flat (c.read depth).nodes) :
    Regular depth (c.read depth).nodes := by
  induction h generalizing depth with
  | comment hkind hrun => exact .comment (isCommentBody_read hkind hrun hfaults) (.nil depth)
  | statement hphrase hne => exact regular_readStatement hphrase hfaults hflat
  | stray t => exact .nil depth
  | block hhead hbody ih =>
    rw [Chunk.read] at hfaults hflat ⊢
    split at hfaults
    · cases hfaults
    · next hdepth =>
      rw [if_neg hdepth] at hflat ⊢
      obtain ⟨hfaults, -⟩ := List.append_eq_nil_iff.1 hfaults
      obtain ⟨hflat, -⟩ := flat_append.1 hflat
      exact (regular_readBlock hhead (Nat.lt_of_not_le hdepth)
        (fun hfaults hflat => regular_readAll (fun c hc => ih c hc) hfaults hflat)
        hfaults hflat).append (.nil depth)

/-! ## Reading again -/

/-- A stylesheet without blocks in rules that is read without faults, where the texts of tokens and
    nodes can stand wherever a layout writes them. -/
structure IsFlatSheet (template : String) : Prop where
  sound : faults template = []
  words : ∀ t ∈ Token.scan template, t.IsFirm
  nodes : ∀ n ∈ (parse template).preorder, n.IsFlat

/-- The nodes of a flat stylesheet are regular. -/
theorem IsFlatSheet.regular {template : String} (h : IsFlatSheet template) :
    Regular 0 (read template).nodes := by
  have hrun : Run (Token.scan template) := Token.run_scanFrom h.words
  have hflat : Flat [parse template] := by
    rw [Flat, preorderAll, preorderAll, List.append_nil]
    exact h.nodes
  exact regular_readAll (fun c hc => (sane_outline hrun c hc).regular) h.sound
    (flat_singleton.1 hflat).2

/-- **Reading undoes writing** on flat stylesheets, in either layout: with comments kept, what is
    written for the tree of a template is read as the same tree. -/
theorem parse_serialize {template : String} (h : IsFlatSheet template) (minify : Bool) :
    parse (serialize ⟨minify, false⟩ (parse template)) = parse template := by
  rw [parse, parse, h.regular.read_serialize minify]

/-- A sheet with a comment, a statement, and two rules in a condition block. -/
def mediaSheet : String :=
  "/* a */@import url(b.css) ;@media (c:1px)\x7b.d,e:f>g\x7bh:i( 1,2 )/3;j:k;\x7d l\x7b\x7d\x7d"

theorem parse_serialize_mediaSheet : IsFlatSheet mediaSheet ∧
    parse (serialize ⟨true, false⟩ (parse mediaSheet)) = parse mediaSheet := by
  have hflat : IsFlatSheet mediaSheet := ⟨by decide +kernel, by decide +kernel, by decide +kernel⟩
  exact ⟨hflat, parse_serialize hflat true⟩

end Theming.Sheet
