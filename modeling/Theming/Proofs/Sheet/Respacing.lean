import Mathlib.Data.List.Forall2
import Theming.Proofs.Sheet.Outlining
import Theming.Proofs.Sheet.Pruning
import Theming.Proofs.Sheet.Rescanning
import Theming.Sheet.Reading

set_option autoImplicit false

/-! # Other gaps, no comments

A tree does not depend on where its tokens stand, nor on how wide the gaps between them are, but
only on which tokens have a gap in front of them. A comment counts as a gap. `Token.Respaced`
relates tokens to the same tokens without the comments: the same texts are joined, cutting and
splitting give the same parts, one step of an outline keeps the drafts alike (`Draft.alike_step`),
and so the nodes are the same, apart from the comments (`sameNodes_outline`). -/

namespace Theming.Sheet

namespace Token

/-- The tokens `us` are the tokens `ts` without the comments, with gaps at the same places: in front
    of a token, if there is one after the end of the token before it or a comment in between. The
    tokens before them end at `last` and `last'`; with `loose` the first gap does not matter. -/
inductive Respaced : Bool → Nat → Bool → Nat → List Token → List Token → Prop
  | nil {loose : Bool} {last : Nat} {gap : Bool} {last' : Nat} :
      Respaced loose last gap last' [] []
  | comment {loose : Bool} {last : Nat} {gap : Bool} {last' : Nat} {t : Token} {ts us : List Token}
      (hkind : t.kind = .comment) (h : Respaced loose last true last' ts us) :
      Respaced loose last gap last' (t :: ts) us
  | token {loose : Bool} {last : Nat} {gap : Bool} {last' : Nat} {t u : Token} {ts us : List Token}
      (hkind : t.kind ≠ .comment) (hshape : u.shape = t.shape)
      (hgap : loose = false → ((gap = true ∨ last < t.start) ↔ last' < u.start))
      (h : Respaced false t.stop false u.stop ts us) :
      Respaced loose last gap last' (t :: ts) (u :: us)

/-- The same tokens with the same gaps between them, without the comments. -/
def Alike (ts us : List Token) : Prop := Respaced true 0 false 0 ts us

theorem kind_of_shape {t u : Token} (h : u.shape = t.shape) : u.kind = t.kind :=
  congrArg Prod.fst h

theorem text_of_shape {t u : Token} (h : u.shape = t.shape) : u.text = t.text :=
  congrArg Prod.snd h

namespace Respaced

variable {loose gap : Bool} {last last' : Nat} {t : Token} {ts us ps qs : List Token}

/-- The gap in front of the first token can be left open. -/
theorem loosen (h : Respaced loose last gap last' ts us) (m : Nat) (g : Bool) (m' : Nat) :
    Respaced true m g m' ts us := by
  induction h generalizing m g m' with
  | nil => exact .nil
  | comment hkind _ ih => exact .comment hkind (ih m true m')
  | token hkind hshape _ hrest _ => exact .token hkind hshape (fun h => by cases h) hrest

theorem alike (h : Respaced loose last gap last' ts us) : Alike ts us := h.loosen 0 false 0

/-- In front of a token that is no comment stands the same token. -/
theorem uncons (h : Respaced loose last gap last' (t :: ts) us) (hkind : t.kind ≠ .comment) :
    ∃ u rest, us = u :: rest ∧ u.shape = t.shape ∧ Respaced false t.stop false u.stop ts rest := by
  cases h with
  | comment hcomment _ => exact absurd hcomment hkind
  | token _ hshape _ hrest => exact ⟨_, _, rfl, hshape, hrest⟩

theorem drop_comment (h : Respaced loose last gap last' (t :: ts) us) (hkind : t.kind = .comment) :
    Respaced loose last true last' ts us := by
  cases h with
  | comment _ hrest => exact hrest
  | token hcomment _ _ _ => exact absurd hkind hcomment

/-- Lists are cut in two behind the same tokens. -/
theorem split (h : Respaced loose last gap last' (ps ++ ts) (qs ++ us))
    (hshapes : shapes ps = qs.map shape) :
    Respaced loose last gap last' ps qs ∧ Alike ts us := by
  induction ps generalizing loose last gap last' qs with
  | nil =>
    obtain rfl : qs = [] := List.map_eq_nil_iff.1 hshapes.symm
    exact ⟨.nil, h.alike⟩
  | cons t rest ih =>
    by_cases hkind : t.kind = .comment
    · rw [shapes_cons_comment hkind] at hshapes
      obtain ⟨hleft, hright⟩ := ih (h.drop_comment hkind) hshapes
      exact ⟨.comment hkind hleft, hright⟩
    · rw [shapes_cons hkind] at hshapes
      cases qs with
      | nil => cases hshapes
      | cons u more =>
        cases h with
        | comment hcomment _ => exact absurd hcomment hkind
        | token _ hshape hgap hrest =>
          obtain ⟨hleft, hright⟩ := ih hrest (List.cons.inj hshapes).2
          exact ⟨.token hkind hshape hgap hleft, hright⟩

/-- Behind a comment, the first gap is there if there is one on the other side. -/
theorem behind_comment (h : Respaced loose last gap last' ts us) (m m' : Nat)
    (hus : ∀ u, us.head? = some u → m' < u.start) : Respaced false m true m' ts us := by
  induction h generalizing m with
  | nil => exact .nil
  | comment hkind _ ih => exact .comment hkind (ih m hus)
  | token hkind hshape _ hrest _ =>
    exact .token hkind hshape (fun _ => iff_of_true (Or.inl rfl) (hus _ rfl)) hrest

/-- So is a gap in front of the first token or comment. -/
theorem behind_gap (h : Respaced loose last gap last' ts us) {m m' : Nat} (g : Bool)
    (hts : ∀ t, ts.head? = some t → t.kind = .comment ∨ m < t.start)
    (hus : ∀ u, us.head? = some u → m' < u.start) : Respaced false m g m' ts us := by
  cases h with
  | nil => exact .nil
  | comment hkind hrest => exact .comment hkind (hrest.behind_comment m m' hus)
  | token hkind hshape _ hrest =>
    have hgap := (hts _ rfl).resolve_left hkind
    exact .token hkind hshape (fun _ => iff_of_true (Or.inr hgap) (hus _ rfl)) hrest

/-- Without a gap in front, there is none on the other side. -/
theorem adjacent (h : Respaced loose last gap last' (t :: ts) us) (hkind : t.kind ≠ .comment)
    {m m' : Nat} (ht : ¬ m < t.start) (hus : ∀ u, us.head? = some u → ¬ m' < u.start) :
    Respaced false m false m' (t :: ts) us := by
  obtain ⟨u, rest, rfl, hshape, hrest⟩ := h.uncons hkind
  exact .token hkind hshape (fun _ => iff_of_false (by simpa using ht) (hus u rfl)) hrest

/-! ### Texts -/

theorem joinAfter_eq (h : Respaced loose last gap last' ts us) (hloose : loose = false) :
    joinAfter last' false us = joinAfter last gap ts := by
  induction h with
  | nil => rfl
  | comment hkind _ ih => rw [joinAfter_comment hkind, ih hloose]
  | @token _ last gap last' t u ts us hkind hshape hgap _ ih =>
    have hu : u.kind ≠ .comment := by rwa [kind_of_shape hshape]
    by_cases hspace : gap = true ∨ last < t.start
    · rw [joinAfter_gap hkind hspace, joinAfter_gap hu (Or.inr ((hgap hloose).1 hspace)), ih rfl,
        text_of_shape hshape]
    · have hclose : ¬ (false = true ∨ last' < u.start) := by
        simpa using mt (hgap hloose).2 hspace
      rw [joinAfter_close hkind hspace, joinAfter_close hu hclose, ih rfl, text_of_shape hshape]

/-- The same text is joined. -/
theorem join_eq (h : Respaced loose last gap last' ts us) : join us = join ts := by
  refine congrArg String.ofList ?_
  induction h with
  | nil => rfl
  | comment hkind _ ih => rw [ih, joinText, if_pos hkind]
  | token hkind hshape _ hrest _ =>
    rw [joinText, joinText, if_neg hkind, if_neg (by rwa [kind_of_shape hshape]),
      hrest.joinAfter_eq rfl, text_of_shape hshape]

/-! ### Cutting and splitting -/

/-- Cutting at the first token of a kind gives the same parts. -/
theorem cutAt_cases {kind : Kind} (hcomment : kind ≠ .comment)
    (h : Respaced loose last gap last' ts us) (depth : Nat) :
    ∃ ps qs, Respaced loose last gap last' ps qs ∧
      ((cutAt kind depth ts = (ps, none) ∧ cutAt kind depth us = (qs, none)) ∨
        ∃ ts' us', cutAt kind depth ts = (ps, some ts') ∧ cutAt kind depth us = (qs, some us') ∧
          Alike ts' us') := by
  induction h generalizing depth with
  | nil => exact ⟨[], [], .nil, Or.inl ⟨rfl, rfl⟩⟩
  | @comment _ _ _ _ t ts us hkind _ ih =>
    obtain ⟨ps, qs, hparts, hcut⟩ := ih depth
    have hnot : ¬ (t.kind = kind ∧ depth = 0) := fun hc => hcomment (hc.1.symm.trans hkind)
    have hself : cutAt kind depth (t :: ts) =
        (t :: (cutAt kind depth ts).1, (cutAt kind depth ts).2) := by
      rw [cutAt, if_neg hnot, depthAfter_eq, hkind]
      rfl
    refine ⟨t :: ps, qs, .comment hkind hparts, ?_⟩
    rcases hcut with ⟨hts, hus⟩ | ⟨ts', us', hts, hus, halike⟩
    · exact Or.inl ⟨by rw [hself, hts], hus⟩
    · exact Or.inr ⟨ts', us', by rw [hself, hts], hus, halike⟩
  | @token _ _ _ _ t u ts us hkind hshape hgap hrest ih =>
    have hsame := kind_of_shape hshape
    by_cases hcut : t.kind = kind ∧ depth = 0
    · refine ⟨[], [], .nil, Or.inr ⟨ts, us, ?_, ?_, hrest.alike⟩⟩
      · rw [cutAt, if_pos hcut]
      · rw [cutAt, if_pos (by rwa [hsame])]
    · obtain ⟨ps, qs, hparts, hcase⟩ := ih (depthAfter depth t)
      have hdepth : depthAfter depth u = depthAfter depth t := by
        rw [depthAfter_eq, depthAfter_eq, hsame]
      refine ⟨t :: ps, u :: qs, .token hkind hshape hgap hparts, ?_⟩
      rw [cutAt, cutAt, if_neg hcut, if_neg (by rwa [hsame]), hdepth]
      rcases hcase with ⟨hts, hus⟩ | ⟨ts', us', hts, hus, halike⟩
      · exact Or.inl ⟨by rw [hts], by rw [hus]⟩
      · exact Or.inr ⟨ts', us', by rw [hts], by rw [hus], halike⟩

/-- Splitting gives parts with the same texts. -/
theorem splitAt_cases {kind : Kind} (hcomment : kind ≠ .comment)
    (h : Respaced loose last gap last' ts us) (depth : Nat) :
    ∃ p q ps qs, splitAt kind depth ts = p :: ps ∧ splitAt kind depth us = q :: qs ∧
      Respaced loose last gap last' p q ∧ qs.map join = ps.map join := by
  induction h generalizing depth with
  | nil => exact ⟨[], [], [], [], rfl, rfl, .nil, rfl⟩
  | @comment _ _ _ _ t ts us hkind _ ih =>
    obtain ⟨p, q, ps, qs, hts, hus, hfirst, hothers⟩ := ih depth
    refine ⟨t :: p, q, ps, qs, ?_, hus, .comment hkind hfirst, hothers⟩
    have hnot : ¬ (t.kind = kind ∧ depth = 0) := fun hc => hcomment (hc.1.symm.trans hkind)
    have hdepth : depthAfter depth t = depth := by
      rw [depthAfter_eq, hkind]
      rfl
    rw [splitAt, if_neg hnot, hdepth, hts]
  | @token _ _ _ _ t u ts us hkind hshape hgap hrest ih =>
    have hsame := kind_of_shape hshape
    by_cases hcut : t.kind = kind ∧ depth = 0
    · obtain ⟨p, q, ps, qs, hts, hus, hfirst, hothers⟩ := ih 0
      refine ⟨[], [], p :: ps, q :: qs, ?_, ?_, .nil, ?_⟩
      · rw [splitAt, if_pos hcut, hts]
      · rw [splitAt, if_pos (by rwa [hsame]), hus]
      · rw [List.map_cons, List.map_cons, hfirst.join_eq, hothers]
    · obtain ⟨p, q, ps, qs, hts, hus, hfirst, hothers⟩ := ih (depthAfter depth t)
      have hdepth : depthAfter depth u = depthAfter depth t := by
        rw [depthAfter_eq, depthAfter_eq, hsame]
      refine ⟨t :: p, u :: q, ps, qs, ?_, ?_, .token hkind hshape hgap hfirst, hothers⟩
      · rw [splitAt, if_neg hcut, hts]
      · rw [splitAt, if_neg (by rwa [hsame]), hdepth, hus]

theorem map_join_splitAt {kind : Kind} (hcomment : kind ≠ .comment)
    (h : Respaced loose last gap last' ts us) (depth : Nat) :
    (splitAt kind depth us).map join = (splitAt kind depth ts).map join := by
  obtain ⟨p, q, ps, qs, hts, hus, hfirst, hothers⟩ := h.splitAt_cases hcomment depth
  rw [hts, hus, List.map_cons, List.map_cons, hfirst.join_eq, hothers]

end Respaced

end Token

/-! ## Trees without comments -/

/-- Drops the comments among some children. -/
def dropComments (_ : Kind) (children : List Node) : List Node :=
  children.filter (fun n => n.kind ≠ .comment)

/-- The tree without the comments in it. -/
def Node.withoutComments (tree : Node) : Node := tree.rebuild dropComments

/-- The nodes without the comments among them and below. -/
def uncommented (nodes : List Node) : List Node :=
  dropComments .root (Node.rebuildAll dropComments nodes)

theorem withoutComments_root (nodes : List Node) :
    (Node.root nodes).withoutComments = .root (uncommented nodes) := rfl

theorem uncommented_append (a b : List Node) :
    uncommented (a ++ b) = uncommented a ++ uncommented b := by
  rw [uncommented, Node.rebuildAll_eq_map, List.map_append, dropComments, List.filter_append,
    ← Node.rebuildAll_eq_map, ← Node.rebuildAll_eq_map]
  rfl

theorem uncommented_selectors (selectors : List String) :
    uncommented (selectors.map .selector) = selectors.map .selector := by
  induction selectors with
  | nil => rfl
  | cons text rest ih =>
    have hsplit := uncommented_append [.selector text] (rest.map .selector)
    rw [ih] at hsplit
    exact hsplit

/-! ## Reading -/

section Reading

open Token (Alike)

variable {ts us : List Token}

/-- The same tokens, in a statement or head that starts with no comment. -/
structure AlikePhrase (ts us : List Token) : Prop where
  alike : Alike ts us
  head : ∀ t, ts.head? = some t → t.kind ≠ .comment

theorem AlikePhrase.cases (h : AlikePhrase ts us) :
    (ts = [] ∧ us = []) ∨ ∃ t u rest more, ts = t :: rest ∧ us = u :: more ∧
      u.kind = t.kind ∧ u.text = t.text ∧ Alike rest more := by
  cases ts with
  | nil =>
    obtain ⟨halike, -⟩ := h
    cases halike
    exact Or.inl ⟨rfl, rfl⟩
  | cons t rest =>
    obtain ⟨u, more, rfl, hshape, hrest⟩ := h.alike.uncons (h.head t rfl)
    exact Or.inr ⟨t, u, rest, more, rfl, rfl, Token.kind_of_shape hshape,
      Token.text_of_shape hshape, hrest.alike⟩

theorem nodes_readDeclaration (h : Alike ts us) (p q : Nat) :
    (readDeclaration q us).nodes = uncommented (readDeclaration p ts).nodes := by
  have hcolon : Token.Kind.colon ≠ .comment := by decide
  obtain ⟨ps, qs, hparts, hcut⟩ := h.cutAt_cases hcolon 0
  rw [readDeclaration, readDeclaration]
  rcases hcut with ⟨hts, hus⟩ | ⟨ts', us', hts, hus, halike⟩
  · rw [hts, hus]
    dsimp only
    split <;> split <;> rfl
  · rw [hts, hus]
    dsimp only
    rw [hparts.join_eq, halike.join_eq]
    split <;> rfl

theorem nodes_readStatement (h : AlikePhrase ts us) :
    (readStatement us).nodes = uncommented (readStatement ts).nodes := by
  rcases h.cases with ⟨rfl, rfl⟩ | ⟨t, u, rest, more, rfl, rfl, hkind, htext, hrest⟩
  · rfl
  · rw [readStatement, readStatement, hkind]
    split
    · rw [htext, hrest.join_eq]
      rfl
    · exact nodes_readDeclaration h.alike _ _

theorem selectorsOf_eq (h : Alike ts us) : selectorsOf us = selectorsOf ts := by
  rw [selectorsOf, h.map_join_splitAt (by decide), selectorsOf]

theorem nodes_readBlock (h : AlikePhrase ts us) {a b : Reading}
    (hbody : b.nodes = uncommented a.nodes) (p q : Token) :
    (readBlock us q b).nodes = uncommented (readBlock ts p a).nodes := by
  rcases h.cases with ⟨rfl, rfl⟩ | ⟨t, u, rest, more, rfl, rfl, hkind, htext, hrest⟩
  · rfl
  · rw [readBlock, readBlock, hkind]
    split
    · rw [htext, hrest.join_eq, hbody]
      rfl
    · rw [selectorsOf_eq h.alike]
      cases hselectors : selectorsOf (t :: rest) with
      | nil => rfl
      | cons text others =>
        show [Node.rule _] = [Node.rule (uncommented _)]
        rw [uncommented_append, uncommented_selectors, hbody]

/-! ### Chunks -/

/-- Chunks that are read as the same nodes, apart from the comments. -/
def SameNodes (cs ds : List Chunk) : Prop :=
  ∀ depth, (Chunk.readAll depth ds).nodes = uncommented (Chunk.readAll depth cs).nodes

variable {cs ds cs' ds' : List Chunk}

theorem sameNodes_nil : SameNodes [] [] := fun _ => rfl

theorem nodes_readAll_append (depth : Nat) (a b : List Chunk) :
    (Chunk.readAll depth (a ++ b)).nodes =
      (Chunk.readAll depth a).nodes ++ (Chunk.readAll depth b).nodes := by
  induction a with
  | nil => rfl
  | cons chunk rest ih =>
    rw [List.cons_append, Chunk.readAll, Chunk.readAll, Reading.append, Reading.append, ih,
      List.append_assoc]

theorem SameNodes.append (h : SameNodes cs ds) (h' : SameNodes cs' ds') :
    SameNodes (cs ++ cs') (ds ++ ds') := fun depth => by
  rw [nodes_readAll_append, nodes_readAll_append, uncommented_append, h depth, h' depth]

theorem nodes_readAll_singleton (depth : Nat) (chunk : Chunk) :
    (Chunk.readAll depth [chunk]).nodes = (chunk.read depth).nodes := List.append_nil _

theorem sameNodes_comment (t : Token) : SameNodes [.comment t] [] := fun depth => by
  rw [nodes_readAll_singleton]
  rfl

theorem sameNodes_stray (t u : Token) : SameNodes [.stray t] [.stray u] := fun _ => rfl

theorem sameNodes_statement (h : AlikePhrase ts us) :
    SameNodes [.statement ts] [.statement us] := fun depth => by
  rw [nodes_readAll_singleton, nodes_readAll_singleton]
  exact nodes_readStatement h

theorem sameNodes_block (h : AlikePhrase ts us) (hbody : SameNodes cs ds) (t u : Token)
    (closed : Bool) : SameNodes [.block ts t cs closed] [.block us u ds closed] := fun depth => by
  rw [nodes_readAll_singleton, nodes_readAll_singleton, Chunk.read, Chunk.read]
  split
  · rfl
  · rw [Reading.append, Reading.append, List.append_nil, List.append_nil]
    exact nodes_readBlock h (hbody (depth + 1)) t u

end Reading

/-! ## Outlines -/

/-- Blocks that are open alike. -/
structure Frame.Alike (f g : Frame) : Prop where
  head : AlikePhrase f.head g.head
  before : SameNodes f.before.reverse g.before.reverse

namespace Draft

/-- Drafts that are alike, in front of tokens that are. -/
structure Alike (d e : Draft) (ts us : List Token) : Prop where
  tokens : Token.Alike (d.pending.reverse ++ ts) (e.pending.reverse ++ us)
  pending : Token.shapes d.pending.reverse = e.pending.reverse.map Token.shape
  head : ∀ t, d.pending.reverse.head? = some t → t.kind ≠ .comment
  depth : e.depth = d.depth
  chunks : SameNodes d.chunks.reverse e.chunks.reverse
  frames : List.Forall₂ Frame.Alike d.frames e.frames

namespace Alike

variable {d e : Draft} {t u : Token} {ts us : List Token}

theorem phrase (h : d.Alike e ts us) : AlikePhrase d.pending.reverse e.pending.reverse :=
  ⟨(h.tokens.split h.pending).1, h.head⟩

theorem rest (h : d.Alike e ts us) : Token.Alike ts us := (h.tokens.split h.pending).2

/-- Between statements, only chunks and open blocks matter. -/
theorem idle {frames frames' : List Frame} {chunks chunks' : List Chunk} (h : Token.Alike ts us)
    (hchunks : SameNodes chunks.reverse chunks'.reverse)
    (hframes : List.Forall₂ Frame.Alike frames frames') :
    Alike ⟨frames, chunks, [], 0⟩ ⟨frames', chunks', [], 0⟩ ts us where
  tokens := h
  pending := rfl
  head _ ht := by cases ht
  depth := rfl
  chunks := hchunks
  frames := hframes

theorem push_comment (h : d.Alike e (t :: ts) us) (hkind : t.kind = .comment)
    (hpending : d.pending ≠ []) : (d.push t).Alike e ts us where
  tokens := by
    have htokens := h.tokens
    rwa [← List.singleton_append, ← List.append_assoc, ← List.reverse_cons] at htokens
  pending := by
    rw [← h.pending, push, List.reverse_cons, Token.shapes, Token.shapes, List.filter_append]
    simp [hkind]
  head first hfirst := by
    rw [push, List.reverse_cons, List.head?_append_of_ne_nil _ (by simpa using hpending)] at hfirst
    exact h.head first hfirst
  depth := by
    rw [h.depth, push, Token.depthAfter_eq, hkind]
    rfl
  chunks := h.chunks
  frames := h.frames

theorem push (h : d.Alike e (t :: ts) (u :: us)) (hkind : t.kind ≠ .comment)
    (hshape : u.shape = t.shape) : (d.push t).Alike (e.push u) ts us where
  tokens := by
    have htokens := h.tokens
    rwa [← List.singleton_append, ← List.append_assoc, ← List.reverse_cons,
      ← List.singleton_append (x := u), ← List.append_assoc, ← List.reverse_cons] at htokens
  pending := by
    rw [Draft.push, Draft.push, List.reverse_cons, List.reverse_cons, List.map_append, ← h.pending,
      Token.shapes, Token.shapes, List.filter_append, List.map_append]
    simp [hkind, hshape]
  head first hfirst := by
    rw [Draft.push, List.reverse_cons] at hfirst
    by_cases hpending : d.pending = []
    · rw [hpending] at hfirst
      exact (Option.some.inj hfirst) ▸ hkind
    · rw [List.head?_append_of_ne_nil _ (by simpa using hpending)] at hfirst
      exact h.head first hfirst
  depth := by
    rw [Draft.push, Draft.push, Token.depthAfter_eq, Token.depthAfter_eq, h.depth,
      Token.kind_of_shape hshape]
  chunks := h.chunks
  frames := h.frames

/-- Statements are ended alike. -/
theorem flush (h : d.Alike e ts us) :
    d.flush.Alike e.flush ts us ∧ d.flush.pending = [] ∧ e.flush.pending = [] := by
  have hphrase := h.phrase
  obtain ⟨frames, chunks, pending, depth⟩ := d
  obtain ⟨frames', chunks', pending', depth'⟩ := e
  rcases hphrase.cases with ⟨hd, he⟩ | ⟨t, u, rest, more, hd, he, -⟩
  · obtain rfl : pending = [] := List.reverse_eq_nil_iff.1 hd
    obtain rfl : pending' = [] := List.reverse_eq_nil_iff.1 he
    exact ⟨h, rfl, rfl⟩
  · cases pending with
    | nil => cases hd
    | cons p ps =>
      cases pending' with
      | nil => cases he
      | cons q qs =>
        have hchunks := h.chunks.append (sameNodes_statement hphrase)
        rw [← List.reverse_cons, ← List.reverse_cons] at hchunks
        exact ⟨idle h.rest hchunks h.frames, rfl, rfl⟩

/-- A token is passed over on both sides. -/
theorem skip (h : d.Alike e (t :: ts) (u :: us)) (hkind : t.kind ≠ .comment)
    (hd : d.pending = []) (he : e.pending = []) : d.Alike e ts us where
  tokens := by
    obtain ⟨_, _, heq, -, hrest⟩ := h.rest.uncons hkind
    obtain ⟨rfl, rfl⟩ := List.cons.inj heq
    rw [hd, he]
    exact hrest.alike
  pending := h.pending
  head := h.head
  depth := h.depth
  chunks := h.chunks
  frames := h.frames

theorem add {chunk chunk' : Chunk} (h : d.Alike e ts us) (hchunk : SameNodes [chunk] [chunk']) :
    (d.add chunk).Alike (e.add chunk') ts us where
  tokens := h.tokens
  pending := h.pending
  head := h.head
  depth := h.depth
  chunks := by
    rw [Draft.add, Draft.add, List.reverse_cons, List.reverse_cons]
    exact h.chunks.append hchunk
  frames := h.frames

theorem add_comment (h : d.Alike e (t :: ts) us) (hkind : t.kind = .comment)
    (hd : d.pending = []) (he : e.pending = []) : (d.add (.comment t)).Alike e ts us where
  tokens := by
    have hrest := h.rest.drop_comment hkind
    rw [Draft.add, hd, he]
    exact hrest.alike
  pending := h.pending
  head := h.head
  depth := h.depth
  chunks := by
    have hchunks := h.chunks.append (sameNodes_comment t)
    rwa [List.append_nil, ← List.reverse_cons] at hchunks
  frames := h.frames

theorem openBlock (h : d.Alike e ts us) (p q : Token) :
    (d.openBlock p).Alike (e.openBlock q) ts us :=
  idle h.rest sameNodes_nil (.cons ⟨h.phrase, h.chunks⟩ h.frames)

theorem closeBlock (h : d.Alike e ts us) (p q : Token) :
    (d.closeBlock p).Alike (e.closeBlock q) ts us := by
  unfold Draft.closeBlock
  have hframes := h.frames
  generalize hd : d.frames = frames at hframes ⊢
  generalize he : e.frames = frames' at hframes ⊢
  cases hframes with
  | nil => exact h.add (sameNodes_stray p q)
  | cons hframe hothers =>
    refine idle h.rest ?_ hothers
    rw [List.reverse_cons, List.reverse_cons]
    exact hframe.before.append (sameNodes_block hframe.head h.chunks _ _ true)

end Alike

/-- **One token is taken alike**: a comment on the one side only, any other token on both. -/
theorem alike_step {d e : Draft} {t : Token} {ts us : List Token} (h : d.Alike e (t :: ts) us) :
    (d.step t).Alike e ts us ∨
      ∃ u rest, us = u :: rest ∧ (d.step t).Alike (e.step u) ts rest := by
  by_cases hcomment : t.kind = .comment
  · left
    by_cases hpending : d.pending = []
    · have he : e.pending = [] := by
        have hshapes := h.pending
        rw [hpending] at hshapes
        exact List.reverse_eq_nil_iff.1 (List.map_eq_nil_iff.1 hshapes.symm)
      have hstep : d.step t = d.add (.comment t) := by
        rw [step, hcomment, hpending]
        rfl
      rw [hstep]
      exact h.add_comment hcomment hpending he
    · have hstep : d.step t = d.push t := by
        refine step_push ?_ ?_ (fun _ => hpending) <;> simp [hcomment]
      rw [hstep]
      exact h.push_comment hcomment hpending
  · right
    obtain ⟨u, rest, rfl, hshape, -⟩ := h.rest.uncons hcomment
    have hkind := Token.kind_of_shape hshape
    refine ⟨u, rest, rfl, ?_⟩
    obtain ⟨hflush, hd, he⟩ := h.flush
    have hskip := hflush.skip hcomment hd he
    by_cases hopen : t.kind = .braceOpen
    · have hboth : d.step t = d.openBlock t ∧ e.step u = e.openBlock u := by
        rw [step, step, hkind, hopen]
        exact ⟨rfl, rfl⟩
      rw [hboth.1, hboth.2]
      exact (h.openBlock t u).skip hcomment rfl rfl
    by_cases hclose : t.kind = .braceClose
    · have hboth : d.step t = d.flush.closeBlock t ∧ e.step u = e.flush.closeBlock u := by
        rw [step, step, hkind, hclose]
        exact ⟨rfl, rfl⟩
      rw [hboth.1, hboth.2]
      exact hskip.closeBlock t u
    by_cases hend : t.kind = .semicolon ∧ d.depth = 0
    · have hboth : d.step t = d.flush ∧ e.step u = e.flush := by
        rw [step, step, hkind, hend.1, h.depth, if_pos hend.2, if_pos hend.2]
        exact ⟨rfl, rfl⟩
      rw [hboth.1, hboth.2]
      exact hskip
    · have hsemicolon : t.kind = .semicolon → d.depth ≠ 0 := fun hsemi hdepth =>
        hend ⟨hsemi, hdepth⟩
      rw [step_push ⟨hopen, hclose⟩ hsemicolon (fun hc => absurd hc hcomment),
        step_push (by rw [hkind]; exact ⟨hopen, hclose⟩) (by rwa [hkind, h.depth])
          (fun hc => absurd (hkind ▸ hc) hcomment)]
      exact h.push hcomment hshape

/-- Drafts stay alike up to the end of the tokens. -/
theorem alike_foldl {d e : Draft} {ts us : List Token} (h : d.Alike e ts us) :
    (ts.foldl step d).Alike (us.foldl step e) [] [] := by
  induction ts generalizing d e us with
  | nil =>
    have hrest := h.rest
    cases us with
    | nil => exact h
    | cons u more => cases hrest
  | cons t rest ih =>
    rcases alike_step h with hskip | ⟨u, more, rfl, hboth⟩
    · exact ih hskip
    · have hrest := ih hboth
      exact hrest

theorem sameNodes_closeAll {frames frames' : List Frame} {chunks chunks' : List Chunk}
    (hframes : List.Forall₂ Frame.Alike frames frames')
    (hchunks : SameNodes chunks.reverse chunks'.reverse) :
    SameNodes (closeAll frames chunks) (closeAll frames' chunks') := by
  induction hframes generalizing chunks chunks' with
  | nil => exact hchunks
  | cons hframe _ ih =>
    refine ih ?_
    rw [List.reverse_cons, List.reverse_cons]
    exact hframe.before.append (sameNodes_block hframe.head hchunks _ _ false)

end Draft

/-- **Alike tokens have outlines with the same nodes**, apart from the comments. -/
theorem sameNodes_outline {ts us : List Token} (h : Token.Alike ts us) :
    SameNodes (outline ts) (outline us) := by
  have hstart : Draft.empty.Alike Draft.empty ts us := .idle h sameNodes_nil .nil
  have hend := (Draft.alike_foldl hstart).flush.1
  exact Draft.sameNodes_closeAll hend.frames hend.chunks

end Theming.Sheet
