import Theming.Proofs.Sheet.Spelling
import Theming.Proofs.Text.Trimming
import Theming.Sheet.Layout

set_option autoImplicit false

/-! # Writing regular trees

A tree is regular if no block stands inside a rule and each of its texts is scanned, wherever the
layouts write it, as what it stands for (`Regular`). Both layouts write such a tree as a spelling of
it, so it is read again as it was.

Main statement: `Regular.read_serialize`. -/

namespace Theming.Sheet

open Token (Flowing Scans Separated isGap)

/-! ## Comments -/

/-- What can stand in a comment: no closing mark, and no blanks at the ends. -/
structure IsCommentBody (body : String) : Prop where
  trimmed : Text.IsTrimmed body.toList
  unended : ¬ ['*', '/'] <:+: body.toList

/-- A comment is read up to its closing mark. -/
theorem commentLength_append {inner : List Char} (h : ¬ ['*', '/'] <:+: inner) (tail : List Char) :
    Token.commentLength (inner ++ '*' :: '/' :: tail) = inner.length + 2 := by
  induction inner with
  | nil => rfl
  | cons c rest ih =>
    have hrest : ¬ ['*', '/'] <:+: rest := fun hc => h (hc.trans (List.suffix_cons c rest).isInfix)
    rw [List.cons_append, Token.commentLength.eq_3, ih hrest, List.length_cons]
    rintro more rfl hmore
    cases rest with
    | nil => cases hmore
    | cons d rest =>
      obtain rfl : d = '/' := (List.cons.inj hmore).1
      exact h ⟨[], rest, rfl⟩

/-- The text between comment marks, trimmed. -/
theorem commentBody_marked (inner : List Char) :
    commentBody ('/' :: '*' :: (inner ++ ['*', '/'])) = Text.trim inner := by
  have hstart : Text.dropPrefix? ['/', '*'] ('/' :: '*' :: (inner ++ ['*', '/'])) =
      some (inner ++ ['*', '/']) := Text.dropPrefix?_eq_some_iff.2 rfl
  have hstop : Text.dropSuffix? ['*', '/'] (inner ++ ['*', '/']) = some inner :=
    Text.dropSuffix?_eq_some_iff.2 rfl
  simp only [commentBody, hstart, hstop, Option.getD_some]

theorem isClosedComment_marked (inner : List Char) :
    isClosedComment ('/' :: '*' :: (inner ++ ['*', '/'])) = true := by
  have hends : Text.endsWith ['*', '/'] ('/' :: '*' :: (inner ++ ['*', '/'])) = true := by
    rw [Text.endsWith, Option.isSome_iff_exists]
    exact ⟨'/' :: '*' :: inner, Text.dropSuffix?_eq_some_iff.2 rfl⟩
  have hmarks : Text.byteLength ['*', '/'] = 2 := rfl
  have hlength : 4 ≤ Text.byteLength ('/' :: '*' :: (inner ++ ['*', '/'])) := by
    rw [Text.byteLength, Text.byteLength, Text.byteLength_append, hmarks]
    show 4 ≤ 1 + (1 + (Text.byteLength inner + 2))
    omega
  rw [isClosedComment, hends, decide_eq_true hlength]
  rfl

/-- Text between comment marks is one comment. -/
theorem isComment_of_trim {body : String} {inner : List Char}
    (htrim : Text.trim inner = body.toList) (h : ¬ ['*', '/'] <:+: inner) : IsComment body ('/' :: '*' :: (inner ++ ['*', '/'])) := by
  intro o tail
  let t : Token := ⟨.comment, '/' :: '*' :: (inner ++ ['*', '/']), 0, 0⟩
  have hcut : t.CutBefore tail := by
    refine ⟨'/', '*' :: (inner ++ ['*', '/']), rfl, rfl, ?_⟩
    show Token.afterSlash ('*' :: (inner ++ ['*', '/'] ++ tail)) = _
    rw [Token.afterSlash, List.append_assoc]
    show (_, Token.commentLength (inner ++ '*' :: '/' :: tail) + 1) = _
    rw [commentLength_append h, List.length_cons, List.length_append]
    rfl
  refine ⟨t.movedTo o, Token.scanFrom_cut hcut o, rfl, ?_⟩
  show Reading.mk [.comment (String.ofList (commentBody t.text))]
    (if isClosedComment t.text then [] else _) = _
  rw [isClosedComment_marked, if_pos rfl, commentBody_marked, htrim, String.ofList_toList]

theorem IsCommentBody.isComment {body : String} (h : IsCommentBody body) :
    IsComment body ("/*".toList ++ body.toList ++ "*/".toList) :=
  isComment_of_trim (Text.trim_of_isTrimmed h.trimmed) h.unended

theorem IsCommentBody.isComment_spaced {body : String} (h : IsCommentBody body) :
    IsComment body ("/* ".toList ++ body.toList ++ " */".toList) := by
  have hunended : ¬ ['*', '/'] <:+: ' ' :: (body.toList ++ [' ']) := by
    rw [List.infix_cons_iff, List.infix_concat_iff]
    rintro (⟨more, hmore⟩ | ⟨before, hbefore⟩ | hinside)
    · cases (List.cons.inj hmore).1
    · have hlast := congrArg List.getLast? hbefore
      simp at hlast
    · exact h.unended hinside
  have hmarked := isComment_of_trim (Text.trim_between_spaces h.trimmed) hunended
  simpa using hmarked

/-! ## Regular trees -/

/-- A statement without its semicolon. -/
def statementHead (name prelude : String) : List Char :=
  if prelude = "" then name.toList else name.toList ++ ' ' :: prelude.toList

theorem statementText_eq (name prelude : String) :
    statementText name prelude = statementHead name prelude ++ [';'] := by
  unfold statementText statementHead
  split <;> rfl

/-- The nodes can be written and read again, inside a number of blocks. -/
inductive Regular : Nat → List Node → Prop
  | nil (depth : Nat) : Regular depth []
  | comment {depth : Nat} {nodes : List Node} {body : String} (hbody : IsCommentBody body)
    (h : Regular depth nodes) : Regular depth (.comment body :: nodes)
  | declaration {depth : Nat} {nodes : List Node} {property value : String}
    (hproperty : Text.headIs '@' property = false)
    (hx : ∀ gaps, (∀ c ∈ gaps, isGap c = true) →
      Scans (property.toList ++ ':' :: (gaps ++ value.toList))
        (IsStatement (.declaration property value)))
    (h : Regular depth nodes) : Regular depth (.declaration property value :: nodes)
  | statement {depth : Nat} {nodes : List Node} {name prelude : String}
    (hname : Text.headIs '@' name = true)
    (hx : Scans (statementHead name prelude) (IsStatement (.declaration name prelude)))
    (h : Regular depth nodes) : Regular depth (.declaration name prelude :: nodes)
  | rule {depth : Nat} {body nodes : List Node} {selectors : List String}
    (hdepth : depth < maxNesting)
    (hx : ∀ gaps, (∀ c ∈ gaps, isGap c = true) →
      Scans (Text.joinWith (',' :: gaps) (selectors.map String.toList))
        (IsHead (fun body => .rule (selectors.map .selector ++ body))))
    (hentries : ∀ n ∈ body, n.isEntry = true) (hbody : Regular (depth + 1) body)
    (h : Regular depth nodes) :
    Regular depth (.rule (selectors.map .selector ++ body) :: nodes)
  | condition {depth : Nat} {body nodes : List Node} {name prelude : String}
    (hdepth : depth < maxNesting)
    (hx : Scans (conditionHead name prelude) (IsHead (.condition name prelude)))
    (hbody : Regular (depth + 1) body) (h : Regular depth nodes) :
    Regular depth (.condition name prelude body :: nodes)

/-! ## Flat form -/

theorem items_declaration (property value : String) :
    (Node.declaration property value).items false none =
      [if Text.headIs '@' property then .statement property value
        else .declaration property value] := rfl

theorem items_comment (text : String) :
    (Node.comment text).items false none = [.comment text] := rfl

theorem items_condition (name prelude : String) (body : List Node) :
    (Node.condition name prelude body).items false none =
      [.condition name prelude (itemsOf false none body)] := rfl

/-- A node that is no block gives what it gives as an entry, and nothing under selectors. -/
theorem items_of_flat {n : Node} (h : n.kind ≠ .rule ∧ n.kind ≠ .condition) :
    n.items false none = (n.ownItem? false).toList ∧
      ∀ selectors, n.items false (some selectors) = [] := by
  obtain ⟨kind, properties, children⟩ := n
  cases kind with
  | rule => exact absurd rfl h.1
  | condition => exact absurd rfl h.2
  | root | selector | declaration | comment => exact ⟨rfl, fun _ => rfl⟩

theorem itemsOf_of_flat {nodes : List Node}
    (h : ∀ n ∈ nodes, n.kind ≠ .rule ∧ n.kind ≠ .condition) :
    itemsOf false none nodes = entries false nodes ∧
      ∀ selectors, itemsOf false (some selectors) nodes = [] := by
  induction nodes with
  | nil => exact ⟨rfl, fun _ => rfl⟩
  | cons n rest ih =>
    obtain ⟨hself, hrest⟩ := List.forall_mem_cons.1 h
    obtain ⟨hnone, hsome⟩ := items_of_flat hself
    constructor
    · rw [itemsOf, hnone, (ih hrest).1, entries, entries, List.filterMap_cons]
      cases n.ownItem? false <;> rfl
    · intro selectors
      rw [itemsOf, hsome, (ih hrest).2]
      rfl

theorem kind_of_isEntry {n : Node} (h : n.isEntry = true) :
    n.kind = .declaration ∨ n.kind = .comment := by
  simpa [Node.isEntry] using h

theorem flat_of_isEntry {n : Node} (h : n.isEntry = true) :
    n.kind ≠ .rule ∧ n.kind ≠ .condition := by
  rcases kind_of_isEntry h with hkind | hkind <;> simp [hkind]

theorem kind_ne_selector_of_isEntry {n : Node} (h : n.isEntry = true) : n.kind ≠ .selector := by
  rcases kind_of_isEntry h with hkind | hkind <;> simp [hkind]

/-- The selectors in front of the rest. -/
theorem selectorTexts_rule (selectors : List String) {body : List Node}
    (hbody : ∀ n ∈ body, n.kind ≠ .selector) :
    Node.selectorTexts (selectors.map .selector ++ body) = selectors := by
  have hnone : body.filter (fun n => n.kind = .selector) = [] := by
    apply List.filter_eq_nil_iff.2
    intro n hn
    simpa using hbody n hn
  have hselectors : (selectors.map Node.selector).filter (fun n => n.kind = .selector) =
      selectors.map Node.selector := by
    apply List.filter_eq_self.2
    intro n hn
    obtain ⟨text, -, rfl⟩ := List.mem_map.1 hn
    rfl
  rw [Node.selectorTexts, List.filter_append, hselectors, hnone, List.append_nil, List.map_map]
  exact List.map_id _

theorem entries_rule (selectors : List String) (body : List Node) :
    entries false (selectors.map .selector ++ body) = entries false body := by
  have hselectors : entries false (selectors.map .selector) = [] := by
    apply List.filterMap_eq_nil_iff.2
    intro n hn
    obtain ⟨text, -, rfl⟩ := List.mem_map.1 hn
    rfl
  rw [entries, List.filterMap_append]
  exact congrArg (· ++ entries false body) hselectors

theorem items_entry {n : Node} (h : n.isEntry = true) : ∃ item, n.items false none = [item] := by
  obtain ⟨kind, properties, children⟩ := n
  cases kind with
  | root | rule | selector | condition => cases h
  | declaration | comment => exact ⟨_, rfl⟩

theorem ruleBlock_eq {selectors : List String} {body : List Item} {leaf : Bool}
    (h : body = [] → leaf = true) : ruleBlock selectors body leaf = [.block selectors body] := by
  cases body with
  | nil => rw [h rfl]; rfl
  | cons item rest => rfl

/-- A rule without blocks in it gives one block. -/
theorem items_rule (selectors : List String) {body : List Node}
    (hentries : ∀ n ∈ body, n.isEntry = true) :
    (Node.rule (selectors.map .selector ++ body)).items false none =
      [.block selectors (itemsOf false none body)] := by
  have hchildren : ∀ n ∈ selectors.map Node.selector ++ body,
      n.kind ≠ .rule ∧ n.kind ≠ .condition := by
    intro n hn
    rcases List.mem_append.1 hn with hn | hn
    · obtain ⟨text, -, rfl⟩ := List.mem_map.1 hn
      simp [Node.selector]
    · exact flat_of_isEntry (hentries n hn)
  have hbody := (itemsOf_of_flat (fun n hn => flat_of_isEntry (hentries n hn))).1
  -- Without entries, the rule is written as an empty block.
  have hleaf : itemsOf false none body = [] →
      (!(selectors.map Node.selector ++ body).any Node.isEntry && true) = true := by
    intro hempty
    cases body with
    | nil => simp [Node.isEntry, Node.selector]
    | cons n rest =>
      obtain ⟨item, hitem⟩ := items_entry (hentries n List.mem_cons_self)
      rw [itemsOf, hitem] at hempty
      cases hempty
  rw [Node.rule, Node.items, (itemsOf_of_flat hchildren).2, resolveSelectors,
    selectorTexts_rule selectors (fun n hn => kind_ne_selector_of_isEntry (hentries n hn)),
    entries_rule, ← hbody, List.append_nil]
  exact ruleBlock_eq hleaf

/-! ## The pretty layout -/

theorem isGap_indent (k : Nat) : ∀ c ∈ indent k, isGap c = true := by
  intro c hc
  rw [indent, List.mem_replicate] at hc
  rw [hc.2]
  rfl

theorem isGap_space : ∀ c ∈ [' '], isGap c = true := List.all_eq_true.1 rfl

theorem isGap_none : ∀ c ∈ ([] : List Char), isGap c = true := fun _ hc => by cases hc

/-- An item on its own line. -/
theorem prettyAll_cons (k : Nat) (item : Item) (rest : List Item) :
    Item.prettyAll k (item :: rest) = item.pretty k ++ '\n' :: Item.prettyAll k rest := rfl

theorem Spelled.newline {depth : Nat} {nodes : List Node} {s : List Char}
    (h : Spelled depth nodes s) : Spelled depth nodes ('\n' :: s) := .gap rfl h

theorem Spelled.indented {depth : Nat} {nodes : List Node} {s : List Char}
    (h : Spelled depth nodes s) (k : Nat) : Spelled depth nodes (indent k ++ s) :=
  h.after_gaps (isGap_indent k)

/-- The lines of a block. -/
theorem Spelled.prettyBlock {depth : Nat} (k : Nat) {node : List Node → Node}
    {body nodes : List Node} {head s s' : List Char} (hdepth : depth < maxNesting)
    (hx : Scans head (IsHead node)) (hbody : Spelled (depth + 1) body s)
    (h : Spelled depth nodes s') :
    Spelled depth (node body :: nodes)
      (indent k ++ head ++ " \x7b\n".toList ++ s ++ indent k ++ ['\x7d'] ++ '\n' :: s') := by
  have hinner := (hbody.before_gaps (isGap_indent k)).newline
  have hspelled := (Spelled.block hdepth (hx.before_gaps isGap_space) hinner h.newline).indented k
  simpa using hspelled

theorem Regular.pretty {depth : Nat} {nodes : List Node} (h : Regular depth nodes) (k : Nat) :
    Spelled depth nodes (Item.prettyAll k (itemsOf false none nodes)) := by
  induction h generalizing k with
  | nil depth => exact .nil depth
  | comment hbody _ ih =>
    rw [itemsOf, items_comment, List.singleton_append, prettyAll_cons, Item.pretty]
    have hspelled := (Spelled.comment hbody.isComment_spaced (ih k).newline).indented k
    simpa using hspelled
  | declaration hproperty hx _ ih =>
    rw [itemsOf, items_declaration, hproperty, List.singleton_append, prettyAll_cons]
    have hspelled := (Spelled.statement (hx [' '] isGap_space) (ih k).newline).indented k
    simpa [Item.pretty] using hspelled
  | statement hname hx _ ih =>
    rw [itemsOf, items_declaration, hname, List.singleton_append, prettyAll_cons]
    have hspelled := (Spelled.statement hx (ih k).newline).indented k
    simpa [Item.pretty, statementText_eq] using hspelled
  | rule hdepth hx hentries _ _ ihbody ih =>
    rw [itemsOf, items_rule _ hentries, List.singleton_append, prettyAll_cons, Item.pretty]
    have hspelled := Spelled.prettyBlock k hdepth (hx [' '] isGap_space) (ihbody (k + 1)) (ih k)
    exact hspelled
  | condition hdepth hx _ _ ihbody ih =>
    rw [itemsOf, items_condition, List.singleton_append, prettyAll_cons, Item.pretty]
    exact Spelled.prettyBlock k hdepth hx (ihbody (k + 1)) (ih k)

/-! ## The minified layout -/

/-- The semicolon of what stands behind a comment; a comment ends with none. -/
theorem dropSemicolon_comment (body : String) (rest : List Char) :
    dropSemicolon ("/*".toList ++ body.toList ++ "*/".toList ++ rest) =
      "/*".toList ++ body.toList ++ "*/".toList ++ dropSemicolon rest := by
  by_cases hrest : rest = []
  · have hmark : dropSemicolon "*/".toList = "*/".toList := rfl
    have hnone : dropSemicolon [] = [] := rfl
    rw [hrest, hnone, List.append_nil, dropSemicolon_append _ (by decide), hmark]
  · exact dropSemicolon_append _ hrest

/-- Entries are written as something. -/
theorem eq_nil_of_minifiedAll {nodes : List Node} (hentries : ∀ n ∈ nodes, n.isEntry = true)
    (h : Item.minifiedAll (itemsOf false none nodes) = []) : nodes = [] := by
  cases nodes with
  | nil => rfl
  | cons n rest =>
    obtain ⟨item, hitem⟩ := items_entry (hentries n List.mem_cons_self)
    rw [itemsOf, hitem, List.singleton_append, Item.minifiedAll] at h
    exact absurd (List.append_eq_nil_iff.1 h).1 item.minified_ne_nil

/-- A statement in front of entries, with the semicolon behind it unless it is the last one. -/
theorem Spelled.minifiedStatement {depth : Nat} {n : Node} {nodes : List Node} {x : List Char}
    (hx : Scans x (IsStatement n)) (hentries : ∀ n ∈ nodes, n.isEntry = true)
    (h : Spelled depth nodes (dropSemicolon (Item.minifiedAll (itemsOf false none nodes)))) :
    Spelled depth (n :: nodes)
      (dropSemicolon (x ++ ';' :: Item.minifiedAll (itemsOf false none nodes))) := by
  by_cases hempty : Item.minifiedAll (itemsOf false none nodes) = []
  · rw [hempty, dropSemicolon_semicolon, eq_nil_of_minifiedAll hentries hempty]
    exact .last (hx.mono fun _ hts => hts.toIsLast)
  · have hdrop := dropSemicolon_append (x ++ [';']) hempty
    rw [List.append_assoc, List.append_assoc] at hdrop
    rw [← List.singleton_append (l := Item.minifiedAll _), hdrop]
    exact .statement hx h

/-- Nodes are spelled, and entries also without their last semicolon. -/
theorem Regular.minified {depth : Nat} {nodes : List Node} (h : Regular depth nodes) :
    Spelled depth nodes (Item.minifiedAll (itemsOf false none nodes)) ∧
      ((∀ n ∈ nodes, n.isEntry = true) →
        Spelled depth nodes (dropSemicolon (Item.minifiedAll (itemsOf false none nodes)))) := by
  induction h with
  | nil depth => exact ⟨.nil depth, fun _ => .nil depth⟩
  | @comment depth nodes body hbody _ ih =>
    rw [itemsOf, items_comment, List.singleton_append, Item.minifiedAll, Item.minified]
    refine ⟨.comment hbody.isComment ih.1, fun hentries => ?_⟩
    have hrest := ih.2 (List.forall_mem_cons.1 hentries).2
    have hdrop := dropSemicolon_comment body (Item.minifiedAll (itemsOf false none nodes))
    rw [hdrop]
    exact .comment hbody.isComment hrest
  | @declaration depth nodes property value hproperty hx _ ih =>
    have htext : Item.minifiedAll (itemsOf false none (.declaration property value :: nodes)) =
        property.toList ++ ':' :: ([] ++ value.toList) ++ ';' ::
          Item.minifiedAll (itemsOf false none nodes) := by
      rw [itemsOf, items_declaration, hproperty]
      simp [Item.minifiedAll, Item.minified]
    rw [htext]
    refine ⟨.statement (hx [] isGap_none) ih.1, fun hentries => ?_⟩
    have hrest := (List.forall_mem_cons.1 hentries).2
    exact Spelled.minifiedStatement (hx [] isGap_none) hrest (ih.2 hrest)
  | @statement depth nodes name prelude hname hx _ ih =>
    have htext : Item.minifiedAll (itemsOf false none (.declaration name prelude :: nodes)) =
        statementHead name prelude ++ ';' :: Item.minifiedAll (itemsOf false none nodes) := by
      rw [itemsOf, items_declaration, hname]
      simp [Item.minifiedAll, Item.minified, statementText_eq]
    rw [htext]
    refine ⟨.statement hx ih.1, fun hentries => ?_⟩
    have hrest := (List.forall_mem_cons.1 hentries).2
    exact Spelled.minifiedStatement hx hrest (ih.2 hrest)
  | @rule depth body nodes selectors hdepth hx hentries _ _ ihbody ih =>
    have htext : Item.minifiedAll
        (itemsOf false none (.rule (selectors.map .selector ++ body) :: nodes)) =
          Text.joinWith [','] (selectors.map String.toList) ++ '\x7b' ::
            (dropSemicolon (Item.minifiedAll (itemsOf false none body)) ++ '\x7d' ::
              Item.minifiedAll (itemsOf false none nodes)) := by
      rw [itemsOf, items_rule _ hentries]
      simp [Item.minifiedAll, Item.minified, selectorList]
    rw [htext]
    have hspelled := Spelled.block hdepth (hx [] isGap_none) (ihbody.2 hentries) ih.1
    exact ⟨hspelled,
      fun hnodes => absurd (hnodes _ List.mem_cons_self) (by simp [Node.rule, Node.isEntry])⟩
  | @condition depth body nodes name prelude hdepth hx _ _ ihbody ih =>
    have htext : Item.minifiedAll (itemsOf false none (.condition name prelude body :: nodes)) =
        conditionHead name prelude ++ '\x7b' :: (Item.minifiedAll (itemsOf false none body) ++
          '\x7d' :: Item.minifiedAll (itemsOf false none nodes)) := by
      rw [itemsOf, items_condition]
      simp [Item.minifiedAll, Item.minified]
    rw [htext]
    exact ⟨.block hdepth hx ihbody.1 ih.1,
      fun hnodes => absurd (hnodes _ List.mem_cons_self) (by simp [Node.condition, Node.isEntry])⟩

/-! ## Reading again -/

/-- **A regular tree is read again as it was**, in either layout. -/
theorem Regular.read_serialize {nodes : List Node} (h : Regular 0 nodes) (minify : Bool) :
    read (serialize ⟨minify, false⟩ (.root nodes)) = ⟨nodes, []⟩ := by
  unfold serialize flatten
  cases minify with
  | true => exact h.minified.1.read_eq
  | false => exact (h.pretty 0).read_eq

end Theming.Sheet
