import Theming.Proofs.Sheet.Cutting
import Theming.Proofs.Sheet.Links
import Theming.Proofs.Sheet.Pieces
import Theming.Sheet.Optimization

set_option autoImplicit false

/-! # Well-formed trees

Whatever the text is, reading it takes in every token and gives a tree in order: its links are
sound, blocks nest no deeper than they may, names are not empty, and each rule has its selectors,
at least one, in front of the rest (`Node.IsSound`).

What reading can give is said once, in `Built`; `built_parse` shows that it gives nothing else. The
properties of the tree follow by induction on that, with no look at chunks or tokens.

Main statement: `parse_wellFormed`. -/

namespace Theming.Sheet

open Node

/-! ## Tokens of a template -/

namespace Token

/-- Each token was cut off in front of something. -/
def AllCut (ts : List Token) : Prop := ∀ t ∈ ts, ∃ tail, t.CutBefore tail

theorem allCut_append {ts us : List Token} : AllCut (ts ++ us) ↔ AllCut ts ∧ AllCut us :=
  List.forall_mem_append

/-- An at-word has a name behind its at sign. -/
theorem CutBefore.drop_ne_nil {t : Token} {s : List Char} (h : t.CutBefore s)
    (hkind : t.kind = .atKeyword) : t.text.drop 1 ≠ [] := by
  obtain ⟨c, rest, htext, -, hnext⟩ := h
  have hafter := ((next_kind c (rest ++ s)).1 (by rw [hnext]; exact hkind)).2
  rw [hnext, hkind] at hafter
  rw [htext]
  show rest ≠ []
  rintro rfl
  unfold afterAt at hafter
  split at hafter
  · split at hafter <;> cases hafter
  · cases hafter

theorem allCut_scanFrom (o : Nat) (s : List Char) : AllCut (scanFrom o s) := by
  generalize hts : scanFrom o s = ts
  induction ts generalizing o s with
  | nil => exact fun _ ht => by cases ht
  | cons t rest ih =>
    obtain ⟨tail, hcut, hrest, -, -⟩ := scanFrom_cons hts
    exact List.forall_mem_cons.2 ⟨⟨tail, hcut⟩, ih _ _ hrest⟩

/-- Leaving out separators brings no new tokens. -/
theorem withoutSeparators_sublist (blocks depth : Nat) (ts : List Token) :
    (withoutSeparators blocks depth ts).Sublist ts := by
  fun_induction withoutSeparators blocks depth ts with
  | case1 => exact .slnil
  | case2 | case3 | case6 | case7 =>
    rename_i ih
    exact ih.cons_cons _
  | case4 | case5 =>
    rename_i ih
    exact ih.cons _

/-- The tokens in the pieces of an outline are tokens of the template. -/
theorem allCut_outline (template : String) :
    AllCut ((Chunk.piecesAll (outline (scan template))).flatMap Piece.tokens) := by
  intro t ht
  rw [tokens_outline] at ht
  exact allCut_scanFrom 0 template.toList t ((withoutSeparators_sublist 0 0 _).subset ht)

end Token

/-! ## What is read -/

/-- Nodes that can be read inside a number of blocks. -/
inductive Built : Nat → List Node → Prop
  | nil (depth : Nat) : Built depth []
  | comment {depth : Nat} {nodes : List Node} (text : String) (h : Built depth nodes) :
    Built depth (.comment text :: nodes)
  | declaration {depth : Nat} {nodes : List Node} {property : String} (value : String)
    (hproperty : property ≠ "") (h : Built depth nodes) :
    Built depth (.declaration property value :: nodes)
  | rule {depth : Nat} {body nodes : List Node} {selectors : List String}
    (hdepth : depth < maxNesting) (hne : selectors ≠ []) (htexts : ∀ s ∈ selectors, s ≠ "")
    (hbody : Built (depth + 1) body) (h : Built depth nodes) :
    Built depth (.rule (selectors.map .selector ++ body) :: nodes)
  | condition {depth : Nat} {body nodes : List Node} {name : String} (prelude : String)
    (hdepth : depth < maxNesting) (hname : name ≠ "") (hbody : Built (depth + 1) body)
    (h : Built depth nodes) : Built depth (.condition name prelude body :: nodes)

theorem Built.append {depth : Nat} {a b : List Node} (ha : Built depth a) (hb : Built depth b) :
    Built depth (a ++ b) := by
  induction ha with
  | nil depth => exact hb
  | comment text _ ih => exact .comment text (ih hb)
  | declaration value hproperty _ ih => exact .declaration value hproperty (ih hb)
  | rule hdepth hne htexts hbody _ _ ih => exact .rule hdepth hne htexts hbody (ih hb)
  | condition prelude hdepth hname hbody _ _ ih => exact .condition prelude hdepth hname hbody (ih hb)

theorem String.ofList_ne_empty {s : List Char} (h : s ≠ []) : String.ofList s ≠ "" := by
  intro heq
  have hlist := congrArg String.toList heq
  rw [String.toList_ofList] at hlist
  exact h hlist

theorem built_readDeclaration (depth position : Nat) (ts : List Token) :
    Built depth (readDeclaration position ts).nodes := by
  unfold readDeclaration
  split
  · dsimp only
    split
    · exact .nil depth
    · next hproperty => exact .declaration _ hproperty (.nil depth)
  · dsimp only
    split <;> exact .nil depth

theorem built_readStatement (depth : Nat) {ts : List Token} (hcut : Token.AllCut ts) :
    Built depth (readStatement ts).nodes := by
  cases ts with
  | nil => exact .nil depth
  | cons t rest =>
    rw [readStatement]
    split
    · next hkind =>
      refine .declaration _ (String.ofList_ne_empty fun hempty => ?_) (.nil depth)
      obtain ⟨tail, hself⟩ := hcut t List.mem_cons_self
      exact hself.text_ne_nil hempty
    · exact built_readDeclaration depth _ _

theorem built_readBlock {depth : Nat} (hdepth : depth < maxNesting) {head : List Token}
    (hcut : Token.AllCut head) (brace : Token) {body : Reading}
    (hbody : Built (depth + 1) body.nodes) : Built depth (readBlock head brace body).nodes := by
  unfold readBlock
  split
  · next t rest =>
    split
    · next hkind =>
      obtain ⟨tail, hself⟩ := hcut t List.mem_cons_self
      exact .condition _ hdepth (String.ofList_ne_empty (hself.drop_ne_nil hkind)) hbody
        (.nil depth)
    · split
      · exact .nil depth
      · next hne =>
        refine .rule hdepth hne (fun s hs => ?_) hbody (.nil depth)
        simpa using (List.mem_filter.1 hs).2
  · exact .nil depth

mutual

theorem built_read (depth : Nat) :
    ∀ c : Chunk, Token.AllCut (c.pieces.flatMap Piece.tokens) → Built depth (c.read depth).nodes
  | .comment t => fun _ => .comment _ (.nil depth)
  | .statement ts => fun hcut => by
    rw [Chunk.tokens_statement] at hcut
    exact built_readStatement depth hcut
  | .stray t => fun _ => .nil depth
  | .block head brace body closed => fun hcut => by
    rw [Chunk.read]
    split
    · exact .nil depth
    · next hdepth =>
      rw [Chunk.tokens_block] at hcut
      obtain ⟨hhead, hbody⟩ := Token.allCut_append.1 hcut
      exact (built_readBlock (Nat.lt_of_not_le hdepth) (Token.allCut_append.1 hhead).1 brace
        (built_readAll (depth + 1) body hbody)).append (.nil depth)
termination_by structural c => c

theorem built_readAll (depth : Nat) :
    ∀ chunks : List Chunk, Token.AllCut ((Chunk.piecesAll chunks).flatMap Piece.tokens) →
      Built depth (Chunk.readAll depth chunks).nodes
  | [] => fun _ => .nil depth
  | c :: rest => fun hcut => by
    rw [Chunk.piecesAll, List.flatMap_append] at hcut
    obtain ⟨hself, hrest⟩ := Token.allCut_append.1 hcut
    exact (built_read depth c hself).append (built_readAll depth rest hrest)
termination_by structural chunks => chunks

end

/-- **What is read from a template is built** from sound parts. -/
theorem built_parse (template : String) : Built 0 (read template).nodes :=
  built_readAll 0 _ (Token.allCut_outline template)

/-! ## Sound nodes -/

/-- A rule has its selectors, at least one, in front of the rest; a selector, a property and the name
    of an at-word are not empty; only a root and blocks have children. -/
structure Node.IsSound (n : Node) : Prop where
  rule : n.kind = .rule → ∃ selectors body, n.children = selectors ++ body ∧ selectors ≠ [] ∧
    (∀ m ∈ selectors, m.kind = .selector) ∧ ∀ m ∈ body, m.kind ≠ .selector
  selector : n.kind = .selector → n.prop textKey ≠ ""
  declaration : n.kind = .declaration → n.prop propertyKey ≠ ""
  condition : n.kind = .condition → n.prop nameKey ≠ ""
  leaf : n.kind ≠ .root → n.isBlock = false → n.children = []

theorem isSound_selector {text : String} (h : text ≠ "") : (Node.selector text).IsSound :=
  ⟨fun hk => (by cases hk), fun _ => h, fun hk => (by cases hk), fun hk => (by cases hk),
    fun _ _ => rfl⟩

theorem isSound_declaration {property : String} (value : String) (h : property ≠ "") :
    (Node.declaration property value).IsSound :=
  ⟨fun hk => (by cases hk), fun hk => (by cases hk), fun _ => h, fun hk => (by cases hk),
    fun _ _ => rfl⟩

theorem isSound_comment (text : String) : (Node.comment text).IsSound :=
  ⟨fun hk => (by cases hk), fun hk => (by cases hk), fun hk => (by cases hk),
    fun hk => (by cases hk), fun _ _ => rfl⟩

theorem isSound_condition {name : String} (prelude : String) (body : List Node) (h : name ≠ "") :
    (Node.condition name prelude body).IsSound :=
  ⟨fun hk => (by cases hk), fun hk => (by cases hk), fun hk => (by cases hk), fun _ => h,
    fun _ hb => (by cases hb)⟩

theorem Built.kind_ne_selector {depth : Nat} {nodes : List Node} (h : Built depth nodes) :
    ∀ n ∈ nodes, n.kind ≠ .selector := by
  induction h with
  | nil => exact fun _ hn => by cases hn
  | comment _ _ ih | declaration _ _ _ ih | rule _ _ _ _ _ _ ih | condition _ _ _ _ _ _ ih =>
    exact List.forall_mem_cons.2 ⟨Kind.noConfusion, ih⟩

theorem isSound_rule {depth : Nat} {selectors : List String} {body : List Node}
    (hne : selectors ≠ []) (hbody : Built depth body) :
    (Node.rule (selectors.map .selector ++ body)).IsSound := by
  refine ⟨fun _ => ⟨selectors.map .selector, body, rfl, by simpa using hne, ?_,
    hbody.kind_ne_selector⟩, fun hk => (by cases hk), fun hk => (by cases hk),
    fun hk => (by cases hk), fun _ hb => (by cases hb)⟩
  intro m hm
  obtain ⟨text, -, rfl⟩ := List.mem_map.1 hm
  rfl

theorem forall_mem_preorderAll_cons {P : Node → Prop} {n : Node} {rest : List Node} :
    (∀ m ∈ preorderAll (n :: rest), P m) ↔
      P n ∧ (∀ m ∈ preorderAll n.children, P m) ∧ ∀ m ∈ preorderAll rest, P m := by
  obtain ⟨kind, properties, children⟩ := n
  rw [preorderAll, preorder, List.cons_append, List.forall_mem_cons, List.forall_mem_append]
  rfl

theorem forall_mem_preorderAll_selectors {P : Node → Prop} {selectors : List String} :
    (∀ m ∈ preorderAll (selectors.map .selector), P m) ↔ ∀ s ∈ selectors, P (.selector s) := by
  induction selectors with
  | nil => exact ⟨fun _ _ hs => (by cases hs), fun _ _ hm => by cases hm⟩
  | cons s rest ih =>
    have hnone : ∀ m ∈ preorderAll (Node.selector s).children, P m := fun _ hm => by cases hm
    rw [List.map_cons, forall_mem_preorderAll_cons, ih, List.forall_mem_cons]
    exact and_congr_right fun _ => and_iff_right hnone

/-- Nodes that are built are sound, and so is all below them. -/
theorem Built.isSound {depth : Nat} {nodes : List Node} (h : Built depth nodes) :
    ∀ n ∈ preorderAll nodes, n.IsSound := by
  induction h with
  | nil => exact fun _ hn => by cases hn
  | comment text _ ih =>
    exact forall_mem_preorderAll_cons.2 ⟨isSound_comment text, fun _ hm => (by cases hm), ih⟩
  | declaration value hproperty _ ih =>
    exact forall_mem_preorderAll_cons.2
      ⟨isSound_declaration value hproperty, fun _ hm => (by cases hm), ih⟩
  | @rule depth body nodes selectors hdepth hne htexts hbody _ ihbody ih =>
    refine forall_mem_preorderAll_cons.2 ⟨isSound_rule hne hbody, ?_, ih⟩
    show ∀ m ∈ preorderAll (selectors.map .selector ++ body), m.IsSound
    rw [preorderAll_append]
    exact List.forall_mem_append.2
      ⟨forall_mem_preorderAll_selectors.2 (fun s hs => isSound_selector (htexts s hs)), ihbody⟩
  | condition prelude hdepth hname _ _ ihbody ih =>
    exact forall_mem_preorderAll_cons.2 ⟨isSound_condition prelude _ hname, ihbody, ih⟩

/-! ## Nesting -/

mutual

/-- Each node of a tree in document order, followed by the nodes above it, nearest first. -/
def Node.lineages (above : List Node) : Node → List (List Node)
  | .mk kind properties children =>
    let chain := .mk kind properties children :: above
    chain :: Node.lineagesAll chain children
termination_by structural n => n

/-- Each node of several trees, followed by the nodes above it. -/
def Node.lineagesAll (above : List Node) : List Node → List (List Node)
  | [] => []
  | n :: rest => n.lineages above ++ Node.lineagesAll above rest
termination_by structural nodes => nodes

end

/-- How many blocks there are among a node and the nodes above it. -/
def blocksIn (chain : List Node) : Nat := chain.countP Node.isBlock

theorem blocksIn_block {n : Node} (h : n.isBlock = true) (above : List Node) :
    blocksIn (n :: above) = blocksIn above + 1 := List.countP_cons_of_pos h

theorem forall_mem_lineagesAll_cons {P : List Node → Prop} {above : List Node} {n : Node}
    {rest : List Node} :
    (∀ chain ∈ Node.lineagesAll above (n :: rest), P chain) ↔
      P (n :: above) ∧ (∀ chain ∈ Node.lineagesAll (n :: above) n.children, P chain) ∧
        ∀ chain ∈ Node.lineagesAll above rest, P chain := by
  obtain ⟨kind, properties, children⟩ := n
  rw [lineagesAll, lineages, List.cons_append, List.forall_mem_cons, List.forall_mem_append]
  rfl

theorem lineagesAll_append (above : List Node) (a b : List Node) :
    Node.lineagesAll above (a ++ b) = Node.lineagesAll above a ++ Node.lineagesAll above b := by
  induction a with
  | nil => rfl
  | cons n rest ih => rw [List.cons_append, lineagesAll, lineagesAll, ih, List.append_assoc]

theorem blocksIn_selectors {above : List Node} {bound : Nat} (h : blocksIn above ≤ bound)
    (selectors : List String) :
    ∀ chain ∈ Node.lineagesAll above (selectors.map .selector), blocksIn chain ≤ bound := by
  induction selectors with
  | nil => exact fun _ hc => by cases hc
  | cons s rest ih =>
    exact forall_mem_lineagesAll_cons.2 ⟨h, fun _ hc => (by cases hc), ih⟩

/-- Inside as many blocks as there are above, nodes that are built nest no deeper than they may. -/
theorem Built.nesting_le {depth : Nat} {nodes : List Node} (h : Built depth nodes)
    {above : List Node} (habove : blocksIn above ≤ depth) (hdepth : depth ≤ maxNesting) :
    ∀ chain ∈ Node.lineagesAll above nodes, blocksIn chain ≤ maxNesting := by
  induction h generalizing above with
  | nil => exact fun _ hc => by cases hc
  | comment _ _ ih | declaration _ _ _ ih =>
    exact forall_mem_lineagesAll_cons.2
      ⟨Nat.le_trans habove hdepth, fun _ hc => (by cases hc), ih habove hdepth⟩
  | @rule depth body nodes selectors hlt _ _ _ _ ihbody ih =>
    have hself : blocksIn (.rule (selectors.map .selector ++ body) :: above) ≤ depth + 1 := by
      rw [blocksIn_block rfl]
      exact Nat.succ_le_succ habove
    refine forall_mem_lineagesAll_cons.2 ⟨Nat.le_trans hself hlt, ?_, ih habove hdepth⟩
    show ∀ chain ∈ Node.lineagesAll _ (selectors.map .selector ++ body), _
    rw [lineagesAll_append]
    exact List.forall_mem_append.2
      ⟨blocksIn_selectors (Nat.le_trans hself hlt) selectors, ihbody hself hlt⟩
  | @condition depth body nodes name prelude hlt _ _ _ ihbody ih =>
    have hself : blocksIn (.condition name prelude body :: above) ≤ depth + 1 := by
      rw [blocksIn_block rfl]
      exact Nat.succ_le_succ habove
    exact forall_mem_lineagesAll_cons.2
      ⟨Nat.le_trans hself hlt, ihbody hself hlt, ih habove hdepth⟩

/-! ## Trees of templates -/

/-- **Every text is read whole, as a well-formed tree.** The outline that the tree is read from holds
    each token, but for separators; the tree passes its checks, also when it is put into an arena;
    no node lies in more blocks than are read; and each node is sound. -/
theorem parse_wellFormed (template : String) :
    (Chunk.piecesAll (outline (Token.scan template))).flatMap Piece.tokens =
        Token.withoutSeparators 0 0 (Token.scan template) ∧
      (parse template).defect? = none ∧ (Arena.ofTree (parse template)).defect? = none ∧
      (∀ chain ∈ (parse template).lineages [], blocksIn chain ≤ maxNesting) ∧
      ∀ n ∈ (parse template).preorder, n.IsSound := by
  have hbuilt := built_parse template
  have hdefect := defect?_parse template
  refine ⟨tokens_outline _, hdefect, Arena.defect?_ofTree hdefect, ?_, ?_⟩
  · have hroot : blocksIn [parse template] ≤ 0 := Nat.le_refl 0
    exact List.forall_mem_cons.2 ⟨Nat.zero_le _, hbuilt.nesting_le hroot (Nat.zero_le _)⟩
  · have hroot : (parse template).IsSound :=
      ⟨fun hk => (by cases hk), fun hk => (by cases hk), fun hk => (by cases hk),
        fun hk => (by cases hk), fun hk => absurd rfl hk⟩
    exact List.forall_mem_cons.2 ⟨hroot, hbuilt.isSound⟩

end Theming.Sheet
