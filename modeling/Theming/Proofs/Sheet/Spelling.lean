import Theming.Proofs.Sheet.Outlining
import Theming.Proofs.Sheet.Rescanning
import Theming.Sheet.Reading

set_option autoImplicit false

/-! # Spellings of nodes

How nodes can be written so that they are read again: comments, statements and blocks one after the
other, with any gaps between them, and with no semicolon needed behind the last statement
(`Spelled`). What matters of a statement or of the head of a block is what its text is scanned as.

Main statement: `Spelled.read_eq`, a spelling of nodes is read as these nodes, without faults. -/

namespace Theming.Sheet

open Token (Flowing Scans Separated kinds depthOver isGap)

/-! ## Statements, heads and comments -/

/-- Tokens that are read as one node when they stand in the last statement of a block. -/
structure IsLast (n : Node) (ts : List Token) : Prop where
  flowing : Flowing 0 (kinds ts)
  plain : ∀ t ∈ ts, t.kind ≠ .comment
  nonempty : ts ≠ []
  read : readStatement ts = ⟨[n], []⟩

/-- Tokens that are read as one node when they stand in one statement: with no parenthesis open, a
    semicolon ends them. -/
structure IsStatement (n : Node) (ts : List Token) : Prop extends IsLast n ts where
  closed : depthOver 0 (kinds ts) = 0

/-- Tokens that are read as a node around the body when they stand in front of a brace. -/
structure IsHead (node : List Node → Node) (ts : List Token) : Prop where
  flowing : Flowing 0 (kinds ts)
  plain : ∀ t ∈ ts, t.kind ≠ .comment
  read : ∀ brace body, readBlock ts brace ⟨body, []⟩ = ⟨[node body], []⟩

/-- A text that is scanned as one comment, whatever stands behind it. -/
def IsComment (body : String) (x : List Char) : Prop :=
  ∀ o tail, ∃ t, Token.scanFrom o (x ++ tail) =
      t :: Token.scanFrom (o + Text.byteLength x) tail ∧
    t.kind = .comment ∧ readComment t = ⟨[.comment body], []⟩

/-! ## Spellings -/

/-- The text spells the nodes inside a number of blocks. -/
inductive Spelled : Nat → List Node → List Char → Prop
  | nil (depth : Nat) : Spelled depth [] []
  | gap {depth : Nat} {nodes : List Node} {c : Char} {s : List Char} (hgap : isGap c = true)
    (h : Spelled depth nodes s) : Spelled depth nodes (c :: s)
  | comment {depth : Nat} {nodes : List Node} {body : String} {x s : List Char}
    (hx : IsComment body x) (h : Spelled depth nodes s) :
    Spelled depth (.comment body :: nodes) (x ++ s)
  | statement {depth : Nat} {nodes : List Node} {n : Node} {x s : List Char}
    (hx : Scans x (IsStatement n)) (h : Spelled depth nodes s) :
    Spelled depth (n :: nodes) (x ++ ';' :: s)
  | last {depth : Nat} {n : Node} {x : List Char} (hx : Scans x (IsLast n)) : Spelled depth [n] x
  | block {depth : Nat} {node : List Node → Node} {body nodes : List Node} {x s s' : List Char}
    (hdepth : depth < maxNesting) (hx : Scans x (IsHead node)) (hbody : Spelled (depth + 1) body s)
    (h : Spelled depth nodes s') :
    Spelled depth (node body :: nodes) (x ++ '\x7b' :: (s ++ '\x7d' :: s'))

theorem Spelled.after_gaps {depth : Nat} {nodes : List Node} {gaps s : List Char}
    (hgaps : ∀ c ∈ gaps, isGap c = true) (h : Spelled depth nodes s) :
    Spelled depth nodes (gaps ++ s) := by
  induction gaps with
  | nil => exact h
  | cons c rest ih =>
    exact .gap (hgaps c List.mem_cons_self) (ih (fun d hd => hgaps d (List.mem_cons_of_mem c hd)))

theorem Spelled.before_gaps {depth : Nat} {nodes : List Node} {gaps s : List Char}
    (h : Spelled depth nodes s) (hgaps : ∀ c ∈ gaps, isGap c = true) :
    Spelled depth nodes (s ++ gaps) := by
  induction h with
  | nil depth =>
    have hspelled := (Spelled.nil depth).after_gaps hgaps
    rwa [List.append_nil] at hspelled
  | gap hgap _ ih => exact .gap hgap ih
  | comment hx _ ih =>
    rw [List.append_assoc]
    exact .comment hx ih
  | statement hx _ ih =>
    rw [List.append_assoc]
    exact .statement hx ih
  | last hx => exact .last (hx.before_gaps hgaps)
  | block hdepth hx hbody _ _ ih =>
    rw [List.append_assoc, List.cons_append, List.append_assoc, List.cons_append]
    exact .block hdepth hx hbody ih

/-! ## Reading a spelling -/

/-- Where nothing is pending, the tokens add these chunks. -/
def Adds (ts : List Token) (chunks : List Chunk) : Prop :=
  ∀ frames before, (ts.foldl Draft.step ⟨frames, before, [], 0⟩).flush =
    ⟨frames, chunks.reverse ++ before, [], 0⟩

theorem IsLast.pending {n : Node} {ts : List Token} (h : IsLast n ts) (frames : List Frame)
    (before : List Chunk) :
    ts.foldl Draft.step ⟨frames, before, [], 0⟩ =
      ⟨frames, before, ts.reverse, depthOver 0 (kinds ts)⟩ := by
  rw [Draft.foldl_flowing h.flowing h.plain]
  dsimp only
  rw [List.append_nil]

theorem IsLast.flush {n : Node} {ts : List Token} (h : IsLast n ts) (frames : List Frame)
    (before : List Chunk) (depth : Nat) :
    Draft.flush ⟨frames, before, ts.reverse, depth⟩ = ⟨frames, .statement ts :: before, [], 0⟩ := by
  unfold Draft.flush
  split
  · next hempty => exact absurd (List.reverse_eq_nil_iff.1 hempty) h.nonempty
  · dsimp only
    rw [List.reverse_reverse]

theorem adds_nil : Adds [] [] := fun _ _ => rfl

theorem IsLast.adds {n : Node} {ts : List Token} (h : IsLast n ts) : Adds ts [.statement ts] := by
  intro frames before
  rw [h.pending, h.flush]
  rfl

/-- A semicolon ends a statement. -/
theorem IsStatement.adds_cons {n : Node} {ts us : List Token} {t : Token} {chunks : List Chunk}
    (h : IsStatement n ts) (hkind : t.kind = .semicolon) (hus : Adds us chunks) :
    Adds (ts ++ t :: us) (.statement ts :: chunks) := by
  intro frames before
  have hstep : Draft.step ⟨frames, before, ts.reverse, 0⟩ t =
      ⟨frames, .statement ts :: before, [], 0⟩ := by
    rw [Draft.step, hkind]
    exact h.flush frames before 0
  rw [List.foldl_append, h.pending, h.closed, List.foldl_cons, hstep, hus]
  simp

theorem adds_comment {us : List Token} {t : Token} {chunks : List Chunk}
    (hkind : t.kind = .comment) (hus : Adds us chunks) : Adds (t :: us) (.comment t :: chunks) := by
  intro frames before
  have hstep : Draft.step ⟨frames, before, [], 0⟩ t = ⟨frames, .comment t :: before, [], 0⟩ := by
    rw [Draft.step, hkind]
    rfl
  rw [List.foldl_cons, hstep, hus]
  simp

theorem IsHead.adds_block {node : List Node → Node} {ts us vs : List Token}
    {opening closing : Token} {inner chunks : List Chunk} (h : IsHead node ts) (hopen : opening.kind = .braceOpen)
    (hclose : closing.kind = .braceClose) (hus : Adds us inner) (hvs : Adds vs chunks) :
    Adds (ts ++ opening :: (us ++ closing :: vs)) (.block ts opening inner true :: chunks) := by
  intro frames before
  have hhead : Draft.step ⟨frames, before, ts.reverse, depthOver 0 (kinds ts)⟩ opening =
      ⟨⟨ts, opening, before⟩ :: frames, [], [], 0⟩ := by
    rw [Draft.step, hopen]
    show Draft.openBlock _ opening = _
    rw [Draft.openBlock, List.reverse_reverse]
  have hbody :
      Draft.step (us.foldl Draft.step ⟨⟨ts, opening, before⟩ :: frames, [], [], 0⟩) closing =
        ⟨frames, .block ts opening inner true :: before, [], 0⟩ := by
    rw [Draft.step, hclose]
    show (Draft.flush _).closeBlock closing = _
    rw [hus, Draft.closeBlock]
    simp
  rw [List.foldl_append, Draft.foldl_flowing h.flowing h.plain]
  dsimp only
  rw [List.append_nil, List.foldl_cons, hhead, List.foldl_append, List.foldl_cons, hbody, hvs]
  simp

theorem read_block {node : List Node → Node} {ts : List Token} (h : IsHead node ts) {depth : Nat}
    (hdepth : depth < maxNesting) {opening : Token} {inner : List Chunk} {body : List Node}
    (hbody : Chunk.readAll (depth + 1) inner = ⟨body, []⟩) :
    (Chunk.block ts opening inner true).read depth = ⟨[node body], []⟩ := by
  rw [Chunk.read, if_neg (Nat.not_le.2 hdepth), hbody, h.read]
  rfl

theorem readAll_cons {depth : Nat} {chunk : Chunk} {chunks : List Chunk} {n : Node}
    {nodes : List Node} (hchunk : chunk.read depth = ⟨[n], []⟩)
    (hchunks : Chunk.readAll depth chunks = ⟨nodes, []⟩) :
    Chunk.readAll depth (chunk :: chunks) = ⟨n :: nodes, []⟩ := by
  rw [Chunk.readAll, hchunk, hchunks]
  rfl

/-- The tokens of a spelling add chunks that are read as the nodes. -/
theorem Spelled.scans {depth : Nat} {nodes : List Node} {s : List Char}
    (h : Spelled depth nodes s) :
    Scans s (fun ts => ∃ chunks, Adds ts chunks ∧ Chunk.readAll depth chunks = ⟨nodes, []⟩) := by
  induction h with
  | nil depth =>
    refine Token.scans_nil.mono ?_
    rintro ts rfl
    exact ⟨[], adds_nil, rfl⟩
  | gap hgap _ ih => exact ih.after_gap hgap
  | comment hx _ ih =>
    intro o tail htail
    obtain ⟨t, hcomment, hkind, hread⟩ := hx o (_ ++ tail)
    obtain ⟨us, hus, chunks, hadds, hnodes⟩ := ih _ tail htail
    refine ⟨t :: us, ?_, _, adds_comment hkind hadds, readAll_cons hread hnodes⟩
    rw [List.append_assoc, hcomment, hus, Text.byteLength_append, Nat.add_assoc]
    rfl
  | statement hx _ ih =>
    refine (hx.append (ih.after_single rfl rfl) (Token.separated_cons rfl _)).mono ?_
    rintro ts ⟨us, vs, rfl, hus, t, ws, rfl, hkind, chunks, hadds, hread⟩
    exact ⟨_, hus.adds_cons hkind hadds, readAll_cons hus.read hread⟩
  | last hx =>
    refine hx.mono ?_
    intro ts hts
    exact ⟨_, hts.adds, readAll_cons hts.read rfl⟩
  | block hdepth hx _ _ ihbody ih =>
    refine (hx.append ((ihbody.append (ih.after_single rfl rfl)
      (Token.separated_cons rfl _)).after_single rfl rfl) (Token.separated_cons rfl _)).mono ?_
    rintro ts ⟨us, vs, rfl, hus, opening, ws, rfl, hopen, xs, ys, rfl, ⟨inner, hinner, hbody⟩,
      closing, zs, rfl, hclose, chunks, hadds, hread⟩
    exact ⟨_, hus.adds_block hopen hclose hinner hadds,
      readAll_cons (read_block hus hdepth hbody) hread⟩

/-- **A spelling of nodes is read as these nodes**, without faults. -/
theorem Spelled.read_eq {nodes : List Node} {s : List Char} (h : Spelled 0 nodes s) :
    read (String.ofList s) = ⟨nodes, []⟩ := by
  obtain ⟨chunks, hadds, hread⟩ := h.scans.whole 0
  have houtline : outline (Token.scanFrom 0 s) = chunks := by
    unfold outline Draft.finish
    rw [Draft.empty, hadds [] []]
    simp [Draft.closeAll]
  rw [Sheet.read, Token.scan, String.toList_ofList, houtline, hread]

end Theming.Sheet
