import Theming.Sheet.Outline

set_option autoImplicit false

/-! # The pieces of a template

Without its tree, an outline is a list of pieces: comments between statements, statements, heads of
blocks with their braces, and closing braces that match none. Such a list can also be cut from the
tokens one after the other, with no blocks kept but a count of them (`Piece.cut`).

Main statements: both are the same list (`pieces_outline`), and the pieces hold each token once and
in order, but for closing braces of blocks and for semicolons outside parentheses
(`tokens_outline`). -/

namespace Theming.Sheet

/-- A part of a template between two separators. -/
inductive Piece where
  | comment (token : Token)
  | statement (tokens : List Token)
  | head (tokens : List Token) (brace : Token)
  | stray (token : Token)
deriving Repr, DecidableEq

namespace Piece

/-- The tokens of a piece. -/
def tokens : Piece → List Token
  | .comment t => [t]
  | .statement ts => ts
  | .head ts brace => ts ++ [brace]
  | .stray t => [t]

/-- The statement that ends, if there is one. -/
def ended : List Token → List Piece
  | [] => []
  | pending => [.statement pending]

/-- Cuts tokens into pieces, with the number of open blocks, the tokens of the statement at hand and
    the number of open parentheses in it. -/
def cut : (blocks : Nat) → (pending : List Token) → (depth : Nat) → List Token → List Piece
  | _, pending, _, [] => ended pending
  | blocks, pending, depth, t :: rest =>
    match t.kind with
    | .braceOpen => .head pending t :: cut (blocks + 1) [] 0 rest
    | .braceClose =>
      if blocks = 0 then ended pending ++ .stray t :: cut 0 [] 0 rest
      else ended pending ++ cut (blocks - 1) [] 0 rest
    | .semicolon =>
      if depth = 0 then ended pending ++ cut blocks [] 0 rest
      else cut blocks (pending ++ [t]) depth rest
    | .comment =>
      if pending.isEmpty then .comment t :: cut blocks [] depth rest
      else cut blocks (pending ++ [t]) depth rest
    | _ => cut blocks (pending ++ [t]) (Token.depthAfter depth t) rest

end Piece

mutual

/-- The pieces of a chunk in the order of the template. -/
def Chunk.pieces : Chunk → List Piece
  | .comment t => [.comment t]
  | .statement ts => [.statement ts]
  | .block head brace body _ => .head head brace :: Chunk.piecesAll body
  | .stray t => [.stray t]
termination_by structural c => c

/-- The pieces of several chunks. -/
def Chunk.piecesAll : List Chunk → List Piece
  | [] => []
  | c :: rest => c.pieces ++ Chunk.piecesAll rest
termination_by structural chunks => chunks

end

theorem Chunk.piecesAll_append (a b : List Chunk) :
    Chunk.piecesAll (a ++ b) = Chunk.piecesAll a ++ Chunk.piecesAll b := by
  induction a with
  | nil => rfl
  | cons c rest ih => rw [List.cons_append, piecesAll, piecesAll, ih, List.append_assoc]

theorem Chunk.tokens_statement (ts : List Token) :
    (Chunk.statement ts).pieces.flatMap Piece.tokens = ts := List.append_nil ts

theorem Chunk.tokens_block (head : List Token) (brace : Token) (body : List Chunk) (closed : Bool) :
    (Chunk.block head brace body closed).pieces.flatMap Piece.tokens =
      head ++ [brace] ++ (Chunk.piecesAll body).flatMap Piece.tokens := rfl

/-! ## The pieces of a draft -/

namespace Draft

/-- The pieces in front of the chunks of the innermost open block. -/
def piecesBefore : List Frame → List Piece
  | [] => []
  | f :: frames => piecesBefore frames ++ Chunk.piecesAll f.before.reverse ++ [.head f.head f.brace]

/-- The pieces that are complete. -/
def pieces (d : Draft) : List Piece := piecesBefore d.frames ++ Chunk.piecesAll d.chunks.reverse

theorem pieces_mk (frames : List Frame) (chunks : List Chunk) (pending : List Token) (depth : Nat) :
    pieces ⟨frames, chunks, pending, depth⟩ =
      piecesBefore frames ++ Chunk.piecesAll chunks.reverse := rfl

theorem pieces_chunk (frames : List Frame) (chunk : Chunk) (chunks : List Chunk) :
    piecesBefore frames ++ Chunk.piecesAll (chunk :: chunks).reverse =
      piecesBefore frames ++ Chunk.piecesAll chunks.reverse ++ chunk.pieces := by
  rw [List.reverse_cons, Chunk.piecesAll_append, Chunk.piecesAll, Chunk.piecesAll, List.append_nil,
    List.append_assoc]

/-- Closing a block moves its pieces behind its head. -/
theorem pieces_close (f : Frame) (frames : List Frame) (chunks : List Chunk) (closed : Bool) :
    piecesBefore frames ++
        Chunk.piecesAll (.block f.head f.brace chunks.reverse closed :: f.before).reverse =
      piecesBefore (f :: frames) ++ Chunk.piecesAll chunks.reverse := by
  rw [pieces_chunk, Chunk.pieces, piecesBefore, List.append_assoc _ [_]]
  rfl

theorem piecesAll_closeAll (frames : List Frame) (chunks : List Chunk) :
    Chunk.piecesAll (closeAll frames chunks) =
      piecesBefore frames ++ Chunk.piecesAll chunks.reverse := by
  induction frames generalizing chunks with
  | nil => rfl
  | cons f rest ih => rw [closeAll, ih, pieces_close]

/-- Between statements, no parenthesis is open. -/
def Settled (d : Draft) : Prop := d.pending = [] → d.depth = 0

/-- Ending the statement at hand completes its piece. -/
theorem flush_spec {d : Draft} (h : d.Settled) :
    ∃ chunks, d.flush = ⟨d.frames, chunks, [], 0⟩ ∧
      piecesBefore d.frames ++ Chunk.piecesAll chunks.reverse =
        d.pieces ++ Piece.ended d.pending.reverse := by
  obtain ⟨frames, chunks, pending, depth⟩ := d
  cases pending with
  | nil =>
    obtain rfl : depth = 0 := h rfl
    exact ⟨chunks, rfl, (List.append_nil _).symm⟩
  | cons t more =>
    refine ⟨.statement (t :: more).reverse :: chunks, rfl, ?_⟩
    rw [pieces_chunk, Chunk.pieces]
    cases hpending : (t :: more).reverse with
    | nil => simp at hpending
    | cons u others => rfl

theorem settled_idle (frames : List Frame) (chunks : List Chunk) :
    Settled ⟨frames, chunks, [], 0⟩ := fun _ => rfl

theorem settled_push (d : Draft) (t : Token) : (d.push t).Settled := fun h => by cases h

/-- The pieces of a draft and of the tokens in front of it. -/
def piecesWith (d : Draft) (rest : List Token) : List Piece :=
  d.pieces ++ Piece.cut d.frames.length d.pending.reverse d.depth rest

theorem piecesWith_idle (frames : List Frame) (chunks : List Chunk) (rest : List Token) :
    piecesWith ⟨frames, chunks, [], 0⟩ rest =
      piecesBefore frames ++ Chunk.piecesAll chunks.reverse ++
        Piece.cut frames.length [] 0 rest := rfl

theorem piecesWith_push {d : Draft} {t : Token} {rest : List Token}
    (h : Piece.cut d.frames.length d.pending.reverse d.depth (t :: rest) =
      Piece.cut d.frames.length (d.pending.reverse ++ [t]) (Token.depthAfter d.depth t) rest) :
    (d.push t).piecesWith rest = d.piecesWith (t :: rest) := by
  unfold piecesWith
  rw [h, push, List.reverse_cons]
  rfl

theorem depthAfter_semicolon {t : Token} (hkind : t.kind = .semicolon) (depth : Nat) :
    Token.depthAfter depth t = depth := by rw [Token.depthAfter, hkind]

theorem depthAfter_comment {t : Token} (hkind : t.kind = .comment) (depth : Nat) :
    Token.depthAfter depth t = depth := by rw [Token.depthAfter, hkind]

/-- A closing brace between statements. -/
theorem closeBlock_spec {t : Token} (hkind : t.kind = .braceClose) (frames : List Frame)
    (chunks : List Chunk) (rest : List Token) :
    (closeBlock ⟨frames, chunks, [], 0⟩ t).Settled ∧
      (closeBlock ⟨frames, chunks, [], 0⟩ t).piecesWith rest =
        piecesBefore frames ++ Chunk.piecesAll chunks.reverse ++
          Piece.cut frames.length [] 0 (t :: rest) := by
  cases frames with
  | nil =>
    refine ⟨settled_idle _ _, ?_⟩
    show piecesWith ⟨[], .stray t :: chunks, [], 0⟩ rest = _
    rw [piecesWith_idle, pieces_chunk, List.append_assoc, Piece.cut, hkind]
    rfl
  | cons f frames =>
    refine ⟨settled_idle _ _, ?_⟩
    show piecesWith ⟨frames, .block f.head f.brace chunks.reverse true :: f.before, [], 0⟩ rest = _
    rw [piecesWith_idle, pieces_close, Piece.cut, hkind]
    rfl

/-- **One token** is cut into the same pieces as it is taken in. -/
theorem step_spec {d : Draft} (h : d.Settled) (t : Token) (rest : List Token) :
    (d.step t).Settled ∧ (d.step t).piecesWith rest = d.piecesWith (t :: rest) := by
  obtain ⟨chunks, hflush, hpieces⟩ := flush_spec h
  unfold step
  split
  · next hkind =>
    refine ⟨settled_idle _ _, ?_⟩
    have hcut : Piece.cut d.frames.length d.pending.reverse d.depth (t :: rest) =
        .head d.pending.reverse t :: Piece.cut (d.frames.length + 1) [] 0 rest := by
      rw [Piece.cut, hkind]
    rw [openBlock, piecesWith_idle, piecesWith, hcut, piecesBefore, List.append_assoc,
      List.append_assoc]
    rfl
  · next hkind =>
    have hcut : Piece.cut d.frames.length d.pending.reverse d.depth (t :: rest) =
        Piece.ended d.pending.reverse ++ Piece.cut d.frames.length [] 0 (t :: rest) := by
      rw [Piece.cut, Piece.cut, hkind]
      dsimp only
      split <;> rfl
    have hwith : d.piecesWith (t :: rest) = piecesBefore d.frames ++
        Chunk.piecesAll chunks.reverse ++ Piece.cut d.frames.length [] 0 (t :: rest) := by
      rw [piecesWith, hcut, ← List.append_assoc, hpieces]
    rw [hflush, hwith]
    exact closeBlock_spec hkind d.frames chunks rest
  · next hkind =>
    split
    · next hdepth =>
      have hcut : Piece.cut d.frames.length d.pending.reverse d.depth (t :: rest) =
          Piece.ended d.pending.reverse ++ Piece.cut d.frames.length [] 0 rest := by
        rw [Piece.cut, hkind]
        exact if_pos hdepth
      rw [hflush, piecesWith_idle, piecesWith, hcut, ← List.append_assoc, hpieces]
      exact ⟨settled_idle _ _, rfl⟩
    · next hdepth =>
      refine ⟨settled_push d t, piecesWith_push ?_⟩
      rw [Piece.cut, hkind, depthAfter_semicolon hkind]
      exact if_neg hdepth
  · next hkind =>
    split
    · next hempty =>
      have hpending := List.isEmpty_iff.1 hempty
      have hcut : Piece.cut d.frames.length d.pending.reverse d.depth (t :: rest) =
          .comment t :: Piece.cut d.frames.length [] d.depth rest := by
        rw [Piece.cut, hkind, hpending]
        rfl
      refine ⟨h, ?_⟩
      rw [piecesWith, piecesWith, hcut, add, pieces_mk, pieces_chunk, hpending, List.append_assoc]
      rfl
    · next hempty =>
      refine ⟨settled_push d t, piecesWith_push ?_⟩
      rw [Piece.cut, hkind, depthAfter_comment hkind]
      exact if_neg (by simpa using hempty)
  · next hopen hclose hsemicolon hcomment =>
    refine ⟨settled_push d t, piecesWith_push ?_⟩
    rw [Piece.cut]
    split <;> first | contradiction | rfl

theorem foldl_spec {d : Draft} (h : d.Settled) (ts : List Token) :
    (ts.foldl step d).Settled ∧ (ts.foldl step d).piecesWith [] = d.piecesWith ts := by
  induction ts generalizing d with
  | nil => exact ⟨h, rfl⟩
  | cons t rest ih =>
    obtain ⟨hsettled, hstep⟩ := step_spec h t rest
    obtain ⟨hfinal, hrest⟩ := ih hsettled
    exact ⟨hfinal, hrest.trans hstep⟩

theorem piecesAll_finish {d : Draft} (h : d.Settled) :
    Chunk.piecesAll d.finish = d.piecesWith [] := by
  obtain ⟨chunks, hflush, hpieces⟩ := flush_spec h
  unfold finish
  rw [hflush, piecesAll_closeAll, hpieces, piecesWith, Piece.cut]

end Draft

/-- **An outline has the pieces that are cut from its tokens.** -/
theorem pieces_outline (ts : List Token) : Chunk.piecesAll (outline ts) = Piece.cut 0 [] 0 ts := by
  have hempty : Draft.empty.Settled := Draft.settled_idle [] []
  obtain ⟨hsettled, hpieces⟩ := Draft.foldl_spec hempty ts
  rw [outline, Draft.piecesAll_finish hsettled, hpieces]
  rfl

/-! ## The tokens of an outline -/

/-- The tokens without those that only separate: the closing braces of blocks, and semicolons
    outside parentheses. -/
def Token.withoutSeparators : (blocks depth : Nat) → List Token → List Token
  | _, _, [] => []
  | blocks, depth, t :: rest =>
    match t.kind with
    | .braceOpen => t :: withoutSeparators (blocks + 1) 0 rest
    | .braceClose =>
      if blocks = 0 then t :: withoutSeparators 0 0 rest else withoutSeparators (blocks - 1) 0 rest
    | .semicolon =>
      if depth = 0 then withoutSeparators blocks 0 rest
      else t :: withoutSeparators blocks depth rest
    | _ => t :: withoutSeparators blocks (depthAfter depth t) rest

theorem Piece.tokens_ended (pending : List Token) : (ended pending).flatMap tokens = pending := by
  cases pending with
  | nil => rfl
  | cons t rest => exact List.append_nil _

theorem Piece.tokens_cut (blocks : Nat) (pending : List Token) (depth : Nat) (ts : List Token) :
    (cut blocks pending depth ts).flatMap tokens =
      pending ++ Token.withoutSeparators blocks depth ts := by
  fun_induction cut blocks pending depth ts with
  | case1 blocks pending depth => rw [tokens_ended, Token.withoutSeparators, List.append_nil]
  | case2 blocks pending depth t rest hkind ih =>
    simp [Token.withoutSeparators, hkind, tokens, ih]
  | case3 pending depth t rest hkind ih =>
    simp [Token.withoutSeparators, hkind, tokens, tokens_ended, ih]
  | case4 blocks pending depth t rest hkind hblocks ih =>
    simp [Token.withoutSeparators, hkind, hblocks, tokens_ended, ih]
  | case5 blocks pending t rest hkind ih =>
    simp [Token.withoutSeparators, hkind, tokens_ended, ih]
  | case6 blocks pending depth t rest hkind hdepth ih =>
    simp [Token.withoutSeparators, hkind, hdepth, ih]
  | case7 blocks pending depth t rest hkind hempty ih =>
    simp [Token.withoutSeparators, hkind, tokens, List.isEmpty_iff.1 hempty,
      Token.depthAfter, ih]
  | case8 blocks pending depth t rest hkind hempty ih =>
    simp [Token.withoutSeparators, hkind, Token.depthAfter, ih]
  | case9 blocks pending depth t rest hopen hclose hsemicolon hcomment ih =>
    have hother : Token.withoutSeparators blocks depth (t :: rest) =
        t :: Token.withoutSeparators blocks (Token.depthAfter depth t) rest := by
      rw [Token.withoutSeparators]
      split <;> first | contradiction | rfl
    rw [hother, ih, List.append_assoc]
    rfl

/-- **The outline holds each token once and in order**, apart from separators. -/
theorem tokens_outline (ts : List Token) :
    (Chunk.piecesAll (outline ts)).flatMap Piece.tokens = Token.withoutSeparators 0 0 ts := by
  rw [pieces_outline, Piece.tokens_cut, List.nil_append]

end Theming.Sheet
