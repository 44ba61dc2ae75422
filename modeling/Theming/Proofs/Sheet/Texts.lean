import Theming.Proofs.Sheet.Phrases
import Theming.Proofs.Sheet.WellFormed

set_option autoImplicit false

/-! # Where the texts of a tree come from

Each piece of a template says something with its tokens (`Piece.meaning`): all of them but comments,
the first colon of a declaration, the commas between selectors, and braces. If a template is read
without faults, the texts of the nodes, in document order, are joined from exactly these tokens, in
their order.

Main statement: `texts_parse`. -/

namespace Theming.Sheet

open Node

/-! ## Tokens that say something -/

namespace Token

/-- The tokens without comments. -/
def plain (ts : List Token) : List Token := ts.filter (fun t => t.kind ≠ .comment)

/-- The tokens without the first one of a kind outside parentheses. -/
def dropFirst (kind : Kind) : Nat → List Token → List Token
  | _, [] => []
  | depth, t :: rest =>
    if t.kind = kind ∧ depth = 0 then rest else t :: dropFirst kind (depthAfter depth t) rest

/-- The tokens without all of a kind outside parentheses. -/
def dropEach (kind : Kind) : Nat → List Token → List Token
  | _, [] => []
  | depth, t :: rest =>
    if t.kind = kind ∧ depth = 0 then dropEach kind 0 rest
    else t :: dropEach kind (depthAfter depth t) rest

/-- Whether tokens start with an at-word. -/
def startAt (ts : List Token) : Bool := ts.head?.map kind = some .atKeyword

end Token

/-- The tokens of a piece that say something, apart from comments. A statement is a declaration with
    a colon unless it starts with an at-word; a head is a list of selectors unless it does. -/
def Piece.meaning : Piece → List Token
  | .comment _ => []
  | .statement ts => if Token.startAt ts then ts else Token.dropFirst .colon 0 ts
  | .head ts _ => if Token.startAt ts then ts else Token.dropEach .comma 0 ts
  | .stray _ => []

/-- The tokens of a template that say something: without comments, without braces, without
    semicolons between statements, and without the colons and commas that its declarations and
    selectors are told apart by. -/
def Token.meaning (ts : List Token) : List Token :=
  plain ((Piece.cut 0 [] 0 ts).flatMap Piece.meaning)

/-- The texts of a node, in the order in which a template has them. -/
def Node.ownTexts (n : Node) : List String :=
  match n.kind with
  | .selector => [n.prop textKey]
  | .declaration => [n.prop propertyKey, n.prop valueKey]
  | .condition => ["@" ++ n.prop nameKey, n.prop preludeKey]
  | .root | .rule | .comment => []

/-- The texts of nodes and of all below them, in document order. -/
def Node.textsAll (nodes : List Node) : List String := (preorderAll nodes).flatMap ownTexts

/-- The texts of a tree, in document order. -/
def Node.texts (n : Node) : List String := n.preorder.flatMap ownTexts

/-! ## Parts of pieces -/

/-- The tokens of a piece, sorted by the texts that they are joined to. -/
def Piece.parts : Piece → List (List Token)
  | .comment _ | .stray _ => []
  | .statement ts =>
    if Token.startAt ts then [ts.take 1, ts.drop 1]
    else
      match Token.cutAt .colon 0 ts with
      | (before, some after) => [before, after]
      | (_, none) => []
  | .head ts _ =>
    if Token.startAt ts then [ts.take 1, ts.drop 1]
    else (Token.splitAt .comma 0 ts).filter (fun part => Token.join part != "")

namespace Token

theorem plain_nil : plain [] = [] := rfl

theorem plain_append (ts us : List Token) : plain (ts ++ us) = plain ts ++ plain us :=
  List.filter_append ts us

theorem dropFirst_of_cutAt {kind : Kind} {depth : Nat} {ts before after : List Token}
    (h : cutAt kind depth ts = (before, some after)) : dropFirst kind depth ts = before ++ after := by
  induction ts generalizing depth before with
  | nil => cases h
  | cons t rest ih =>
    rw [cutAt] at h
    rw [dropFirst]
    split at h
    · next hcut =>
      obtain ⟨rfl, hafter⟩ := Prod.mk.inj h
      rw [if_pos hcut]
      exact Option.some.inj hafter
    · next hcut =>
      obtain ⟨rfl, hafter⟩ := Prod.mk.inj h
      rw [if_neg hcut, ih (Prod.ext rfl hafter)]
      rfl

theorem flatten_splitAt (kind : Kind) (depth : Nat) (ts : List Token) :
    (splitAt kind depth ts).flatten = dropEach kind depth ts := by
  induction ts generalizing depth with
  | nil => rfl
  | cons t rest ih =>
    rw [splitAt, dropEach]
    split
    · rw [List.flatten_cons, ih]
      rfl
    · rw [← ih]
      split
      · next hnone => rw [hnone]; rfl
      · next part others hparts => rw [hparts]; rfl

theorem plain_of_join_eq_empty {ts : List Token} (hcut : AllCut ts) (h : join ts = "") :
    plain ts = [] := by
  refine filter_of_joinText_eq_nil (fun t ht => ?_) (join_eq_empty_iff.1 h)
  obtain ⟨tail, hself⟩ := hcut t ht
  exact hself.text_ne_nil

/-- Leaving out parts that are joined to nothing leaves out comments only. -/
theorem plain_flatten_filter {parts : List (List Token)} (hcut : AllCut parts.flatten) :
    plain (parts.filter (fun part => join part != "")).flatten = plain parts.flatten := by
  induction parts with
  | nil => rfl
  | cons part rest ih =>
    obtain ⟨hself, hrest⟩ := allCut_append.1 hcut
    rw [List.flatten_cons, plain_append, ← ih hrest, List.filter_cons]
    split
    · rw [List.flatten_cons, plain_append]
    · next hempty =>
      have hjoin : join part = "" := by simpa using hempty
      rw [plain_of_join_eq_empty hself hjoin, List.nil_append]

theorem dropFirst_sublist (kind : Kind) (depth : Nat) (ts : List Token) :
    (dropFirst kind depth ts).Sublist ts := by
  induction ts generalizing depth with
  | nil => exact .slnil
  | cons t rest ih =>
    rw [dropFirst]
    split
    · exact List.sublist_cons_self t rest
    · exact (ih (depthAfter depth t)).cons_cons t

theorem dropEach_sublist (kind : Kind) (depth : Nat) (ts : List Token) :
    (dropEach kind depth ts).Sublist ts := by
  induction ts generalizing depth with
  | nil => exact .slnil
  | cons t rest ih =>
    rw [dropEach]
    split
    · exact (ih 0).cons t
    · exact (ih (depthAfter depth t)).cons_cons t

theorem join_singleton {t : Token} (h : t.kind ≠ .comment) : join [t] = String.ofList t.text := by
  rw [join, joinText, if_neg h, joinAfter, List.append_nil]

end Token

/-! ## Accounting for texts -/

/-- The texts of the nodes are joined from the parts of the pieces, which hold what the pieces
    mean. -/
structure Accounts (pieces : List Piece) (nodes : List Node) : Prop where
  texts : (pieces.flatMap Piece.parts).map Token.join = textsAll nodes
  tokens : Token.plain (pieces.flatMap Piece.parts).flatten =
    Token.plain (pieces.flatMap Piece.meaning)

namespace Accounts

theorem nil : Accounts [] [] := ⟨rfl, rfl⟩

theorem append {ps qs : List Piece} {a b : List Node} (ha : Accounts ps a) (hb : Accounts qs b) :
    Accounts (ps ++ qs) (a ++ b) := by
  constructor
  · rw [List.flatMap_append, List.map_append, ha.texts, hb.texts, textsAll, textsAll, textsAll,
      preorderAll_append, List.flatMap_append]
  · rw [List.flatMap_append, List.flatMap_append, List.flatten_append, Token.plain_append,
      Token.plain_append, ha.tokens, hb.tokens]

end Accounts

theorem textsAll_singleton (n : Node) : textsAll [n] = n.ownTexts ++ textsAll n.children := by
  obtain ⟨kind, properties, children⟩ := n
  rw [textsAll, preorderAll, preorderAll, List.append_nil, preorder, List.flatMap_cons]
  rfl

theorem textsAll_append (a b : List Node) : textsAll (a ++ b) = textsAll a ++ textsAll b := by
  rw [textsAll, preorderAll_append, List.flatMap_append]
  rfl

theorem textsAll_selectors (selectors : List String) :
    textsAll (selectors.map .selector) = selectors := by
  induction selectors with
  | nil => rfl
  | cons s rest ih =>
    rw [List.map_cons, ← List.singleton_append, textsAll_append, textsAll_singleton, ih]
    rfl

theorem startAt_cons {t : Token} (h : t.kind = .atKeyword) (rest : List Token) :
    Token.startAt (t :: rest) = true := by simp [Token.startAt, h]

theorem startAt_cons_ne {t : Token} (h : t.kind ≠ .atKeyword) (rest : List Token) :
    Token.startAt (t :: rest) = false := by simp [Token.startAt, h]

theorem startAt_eq_false {ts : List Token} (h : ∀ t, ts.head? = some t → t.kind ≠ .atKeyword) :
    Token.startAt ts = false := by
  cases ts with
  | nil => rfl
  | cons t rest => exact startAt_cons_ne (h t rfl) rest

theorem join_atKeyword {t : Token} (h : t.kind = .atKeyword) :
    Token.join [t] = String.ofList t.text := Token.join_singleton (by rw [h]; decide)

/-- An at-word is its name behind an at sign. -/
theorem join_atKeyword_eq {t : Token} {tail : List Char} (hcut : t.CutBefore tail)
    (h : t.kind = .atKeyword) : Token.join [t] = "@" ++ String.ofList (t.text.drop 1) := by
  obtain ⟨name, hname⟩ := List.head?_eq_some_iff.1 (hcut.head_of_atKeyword h)
  rw [join_atKeyword h, hname, List.drop_one, List.tail_cons, ← String.toList_inj,
    String.toList_append, String.toList_ofList, String.toList_ofList]
  simp

theorem accounts_comment (t : Token) (text : String) :
    Accounts [.comment t] [.comment text] := ⟨rfl, rfl⟩

theorem accounts_readStatement {ts : List Token} (hcut : Token.AllCut ts)
    (hfaults : (readStatement ts).faults = []) :
    Accounts [.statement ts] (readStatement ts).nodes := by
  rcases readStatement_cases hfaults with
    ⟨hword, hcolon, hempty, hnodes⟩ | ⟨t, rest, rfl, hkind, hnodes⟩ |
      ⟨before, after, hword, hcolon, -, hnodes⟩
  · have hstart := startAt_eq_false hword
    have hparts : Piece.parts (.statement ts) = [] := by
      simp only [Piece.parts, hstart]
      generalize Token.cutAt .colon 0 ts = cut at hcolon ⊢
      obtain ⟨before, after⟩ := cut
      rw [show after = none from hcolon]
      rfl
    have hplain := Token.plain_of_join_eq_empty hcut hempty
    have hmeaning : Token.plain (Token.dropFirst .colon 0 ts) = [] :=
      List.sublist_nil.1 (hplain ▸ (Token.dropFirst_sublist .colon 0 ts).filter _)
    rw [hnodes]
    constructor
    · simp [hparts, textsAll, preorderAll]
    · simp [hparts, Piece.meaning, hstart, hmeaning, Token.plain_nil]
  · have hparts : Piece.parts (.statement (t :: rest)) = [[t], rest] := by
      simp [Piece.parts, startAt_cons hkind]
    rw [hnodes]
    constructor
    · rw [List.flatMap_singleton, hparts, textsAll_singleton, List.map_cons, join_atKeyword hkind]
      rfl
    · simp [hparts, Piece.meaning, startAt_cons hkind]
  · have hstart := startAt_eq_false hword
    have hparts : Piece.parts (.statement ts) = [before, after] := by
      simp [Piece.parts, hstart, hcolon]
    rw [hnodes]
    constructor
    · rw [List.flatMap_singleton, hparts, textsAll_singleton]
      rfl
    · simp [hparts, Piece.meaning, hstart, Token.dropFirst_of_cutAt hcolon]

theorem accounts_readBlock {head : List Token} {brace : Token} {body : Reading}
    {pieces : List Piece} (hcut : Token.AllCut head) (hbody : Accounts pieces body.nodes)
    (hfaults : (readBlock head brace body).faults = []) :
    Accounts (.head head brace :: pieces) (readBlock head brace body).nodes := by
  obtain ⟨-, t, rest, rfl, ⟨hkind, hnodes⟩ | ⟨hkind, hempty, hnodes⟩⟩ := readBlock_cases hfaults
  · obtain ⟨⟨tail, hself⟩, -⟩ := List.forall_mem_cons.1 hcut
    have hparts : Piece.parts (.head (t :: rest) brace) = [[t], rest] := by
      simp [Piece.parts, startAt_cons hkind]
    rw [hnodes]
    constructor
    · rw [List.flatMap_cons, hparts, textsAll_singleton, List.map_append, hbody.texts,
        List.map_cons, join_atKeyword_eq hself hkind]
      rfl
    · rw [List.flatMap_cons, List.flatMap_cons, hparts, List.flatten_append, Token.plain_append,
        Token.plain_append, hbody.tokens]
      simp [Piece.meaning, startAt_cons hkind]
  · have hstart := startAt_cons_ne hkind rest
    have hparts : Piece.parts (.head (t :: rest) brace) =
        (Token.splitAt .comma 0 (t :: rest)).filter (fun part => Token.join part != "") := by
      simp [Piece.parts, hstart]
    have hmeaning : Piece.meaning (.head (t :: rest) brace) =
        (Token.splitAt .comma 0 (t :: rest)).flatten := by
      simp [Piece.meaning, hstart, Token.flatten_splitAt]
    have hsplit : Token.AllCut (Token.splitAt .comma 0 (t :: rest)).flatten := by
      rw [Token.flatten_splitAt]
      exact fun u hu => hcut u ((Token.dropEach_sublist .comma 0 _).subset hu)
    rw [hnodes]
    constructor
    · rw [List.flatMap_cons, hparts, textsAll_singleton, List.map_append, hbody.texts, selectorsOf,
        List.filter_map]
      show _ = textsAll (_ ++ body.nodes)
      rw [textsAll_append, textsAll_selectors]
      rfl
    · rw [List.flatMap_cons, List.flatMap_cons, hparts, hmeaning, List.flatten_append,
        Token.plain_append, Token.plain_append, hbody.tokens, Token.plain_flatten_filter hsplit]

mutual

theorem accounts_read (depth : Nat) : ∀ c : Chunk, Token.AllCut (c.pieces.flatMap Piece.tokens) →
    (c.read depth).faults = [] → Accounts c.pieces (c.read depth).nodes
  | .comment t => fun _ _ => accounts_comment t _
  | .statement ts => fun hcut hfaults => by
    rw [Chunk.tokens_statement] at hcut
    exact accounts_readStatement hcut hfaults
  | .stray t => fun _ hfaults => by cases hfaults
  | .block head brace body closed => fun hcut hfaults => by
    rw [Chunk.tokens_block] at hcut
    obtain ⟨hhead, hbody⟩ := Token.allCut_append.1 hcut
    rw [Chunk.read] at hfaults ⊢
    split at hfaults
    · cases hfaults
    · next hdepth =>
      rw [if_neg hdepth]
      obtain ⟨hfaults, -⟩ := List.append_eq_nil_iff.1 hfaults
      have hinner := (readBlock_cases hfaults).1
      have hblock := accounts_readBlock (Token.allCut_append.1 hhead).1
        (accounts_readAll (depth + 1) body hbody hinner) hfaults
      simpa [Chunk.pieces, Reading.append] using hblock
termination_by structural c => c

theorem accounts_readAll (depth : Nat) : ∀ chunks : List Chunk,
    Token.AllCut ((Chunk.piecesAll chunks).flatMap Piece.tokens) →
      (Chunk.readAll depth chunks).faults = [] →
      Accounts (Chunk.piecesAll chunks) (Chunk.readAll depth chunks).nodes
  | [] => fun _ _ => Accounts.nil
  | c :: rest => fun hcut hfaults => by
    rw [Chunk.piecesAll, List.flatMap_append] at hcut
    obtain ⟨hself, hrest⟩ := Token.allCut_append.1 hcut
    obtain ⟨hfirst, hmore⟩ := List.append_eq_nil_iff.1 hfaults
    exact (accounts_read depth c hself hfirst).append (accounts_readAll depth rest hrest hmore)
termination_by structural chunks => chunks

end

/-! ## Templates -/

/-- **No text is lost.** If a template is read without faults, the tokens that say something, in
    their order, are the tokens that the texts of the tree are joined from, in document order. -/
theorem texts_parse {template : String} (h : faults template = []) :
    ∃ parts : List (List Token), parts.map Token.join = (parse template).texts ∧
      Token.plain parts.flatten = Token.meaning (Token.scan template) := by
  have haccounts := accounts_readAll 0 _ (Token.allCut_outline template) h
  refine ⟨_, ?_, haccounts.tokens.trans ?_⟩
  · rw [haccounts.texts]
    rfl
  · rw [pieces_outline]
    rfl

/-- Comments, empty statements and a comma too many. -/
def looseSheet : String :=
  "@media (c: 9px) \x7b .a, , &:b \x7b x: (a; b) c /* d */; ; y: \x7d \x7d; @charset z"

theorem texts_parse_looseSheet : faults looseSheet = [] ∧
    ∃ parts : List (List Token), parts.map Token.join = (parse looseSheet).texts ∧
      Token.plain parts.flatten = Token.meaning (Token.scan looseSheet) :=
  have h : faults looseSheet = [] := by decide +kernel
  ⟨h, texts_parse h⟩

end Theming.Sheet
