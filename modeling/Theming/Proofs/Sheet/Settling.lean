import Theming.Proofs.Sheet.Denotations
import Theming.Proofs.Sheet.Heads
import Theming.Proofs.Sheet.Legible

set_option autoImplicit false

/-! # Writing a second time

What the pretty layout writes for a template is read again and written again. Where the heads of all
blocks are legible, the second text differs from the first one only in the values that leave a
parenthesis open: each of them takes in the semicolon that was written behind it, and gets a new one
(`pretty_twice`). So both texts are the same just if all values close their parentheses
(`pretty_settles_iff`). -/

namespace Theming.Sheet

open Node
open Token (Scans)

/-! ## Ended values -/

/-- A value as it is read from behind a colon up to the end of its statement, when a semicolon is
    written behind it. -/
def endedValue (value : String) : String := if ClosesParens value then value else value ++ ";"

mutual

/-- The item with all values as they are read again. -/
def Item.ended : Item → Item
  | .comment text => .comment text
  | .statement name prelude => .statement name (endedValue prelude)
  | .declaration property value => .declaration property (endedValue value)
  | .block selectors body => .block selectors (Item.endedAll body)
  | .condition name prelude items => .condition name prelude (Item.endedAll items)
termination_by structural item => item

/-- Several items with all values as they are read again. -/
def Item.endedAll : List Item → List Item
  | [] => []
  | item :: rest => item.ended :: Item.endedAll rest
termination_by structural items => items

end

/-! ## Heads of blocks -/

mutual

/-- The selectors of the blocks in an item. -/
def Item.heads : Item → List (List String)
  | .comment _ | .statement _ _ | .declaration _ _ => []
  | .block selectors body => selectors :: Item.headsAll body
  | .condition _ _ items => Item.headsAll items
termination_by structural item => item

/-- The selectors of the blocks in several items. -/
def Item.headsAll : List Item → List (List String)
  | [] => []
  | item :: rest => item.heads ++ Item.headsAll rest
termination_by structural items => items

end

theorem Item.headsAll_append (a b : List Item) :
    Item.headsAll (a ++ b) = Item.headsAll a ++ Item.headsAll b := by
  induction a with
  | nil => rfl
  | cons item rest ih => rw [List.cons_append, headsAll, headsAll, ih, List.append_assoc]

/-- The heads of all blocks are read again as they are written. -/
def LegibleHeads (items : List Item) : Prop :=
  ∀ selectors ∈ Item.headsAll items, LegibleHead selectors

theorem legibleHeads_append {a b : List Item} :
    LegibleHeads (a ++ b) ↔ LegibleHeads a ∧ LegibleHeads b := by
  rw [LegibleHeads, Item.headsAll_append, List.forall_mem_append]
  rfl

theorem legibleHeads_cons {item : Item} {rest : List Item} :
    LegibleHeads (item :: rest) ↔ LegibleHeads [item] ∧ LegibleHeads rest :=
  legibleHeads_append (a := [item])

theorem legibleHeads_condition {name prelude : String} {items : List Item} :
    LegibleHeads [.condition name prelude items] ↔ LegibleHeads items := by
  rw [LegibleHeads, Item.headsAll, Item.heads, Item.headsAll, List.append_nil]
  rfl

theorem LegibleHeads.block {selectors : List String} {body : List Item}
    (h : LegibleHeads [.block selectors body]) : LegibleHead selectors :=
  h selectors List.mem_cons_self

/-! ## Items that are read again -/

/-- An entry as an item: names with an at sign make statements. -/
def entryItem (property value : String) : Item :=
  if Text.headIs '@' property then .statement property value else .declaration property value

theorem pretty_entryItem (k : Nat) (property value : String) :
    (entryItem property value).pretty k = indent k ++ entryText property value ++ [';'] := by
  unfold entryItem entryText
  split
  · rw [Item.pretty, statementText_eq, List.append_assoc]
  · simp [Item.pretty]

theorem ended_entryItem (property value : String) :
    (entryItem property value).ended = entryItem property (endedValue value) := by
  unfold entryItem
  split <;> rfl

theorem itemsOf_declaration (property value : String) (nodes : List Node) :
    itemsOf false none (.declaration property value :: nodes) =
      entryItem property value :: itemsOf false none nodes := rfl

/-- The lines of the items are read as the nodes, and these are written as the items with their
    values ended. -/
structure Rewritten (depth : Nat) (items : List Item) (nodes : List Node) : Prop where
  spelled : ∀ k, Spelled depth nodes (Item.prettyAll k items)
  again : ∀ k, Item.prettyAll k (itemsOf false none nodes) = Item.prettyAll k (Item.endedAll items)

namespace Rewritten

variable {depth : Nat} {items : List Item} {nodes : List Node}

theorem nil (depth : Nat) : Rewritten depth [] [] := ⟨fun _ => .nil depth, fun _ => rfl⟩

theorem comment {body : String} (hbody : IsCommentBody body) (h : Rewritten depth items nodes) :
    Rewritten depth (.comment body :: items) (.comment body :: nodes) := by
  refine ⟨fun k => ?_, fun k => ?_⟩
  · rw [prettyAll_cons, Item.pretty]
    have hspelled := (Spelled.comment hbody.isComment_spaced (h.spelled k).newline).indented k
    simpa using hspelled
  · rw [itemsOf, items_comment, List.singleton_append, prettyAll_cons, h.again k]
    rfl

/-- A closed entry. -/
theorem entry {property value : String} (hx : LegibleEntry property value)
    (hclosed : ClosesParens value) (h : Rewritten depth items nodes) :
    Rewritten depth (entryItem property value :: items) (.declaration property value :: nodes) := by
  refine ⟨fun k => ?_, fun k => ?_⟩
  · rw [prettyAll_cons, pretty_entryItem]
    have hspelled := (Spelled.statement (hx.closed hclosed) (h.spelled k).newline).indented k
    simpa using hspelled
  · rw [itemsOf_declaration, prettyAll_cons, h.again k, Item.endedAll, ended_entryItem, endedValue,
      if_pos hclosed]
    rfl

/-- An entry that leaves a parenthesis open, at the end of a block. -/
theorem last {property value : String} (hx : LegibleEntry property value)
    (hopen : ¬ ClosesParens value) (depth : Nat) :
    Rewritten depth [entryItem property value] [.declaration property (value ++ ";")] := by
  refine ⟨fun k => ?_, fun k => ?_⟩
  · rw [prettyAll_cons, pretty_entryItem]
    have hline : ∀ c ∈ ['\n'], Token.isGap c = true := List.all_eq_true.1 rfl
    have hself : Spelled depth [.declaration property (value ++ ";")]
        (entryText property value ++ [';']) := .last (hx.opened hopen)
    have hspelled := (hself.before_gaps hline).indented k
    simpa [Item.prettyAll] using hspelled
  · rw [itemsOf_declaration, Item.endedAll, ended_entryItem, endedValue, if_neg hopen]
    rfl

/-- A block with a legible head. -/
theorem block {selectors : List String} {body : List Item} {inner : List Node}
    (hhead : LegibleHead selectors) (hdepth : depth < maxNesting)
    (hbody : Rewritten (depth + 1) body inner) (hentries : ∀ n ∈ inner, n.isEntry = true)
    (h : Rewritten depth items nodes) :
    ∃ n, Rewritten depth (.block selectors body :: items) (n :: nodes) := by
  obtain ⟨node, hx, hsame⟩ := hhead.scans
  obtain ⟨item, hitems, hpretty⟩ := hsame inner hentries
  refine ⟨node inner, fun k => ?_, fun k => ?_⟩
  · rw [prettyAll_cons, pretty_block]
    exact Spelled.prettyBlock k hdepth hx (hbody.spelled (k + 1)) (h.spelled k)
  · rw [itemsOf, hitems, List.singleton_append, prettyAll_cons, hpretty, hbody.again, h.again]
    rfl

theorem condition {name prelude : String} {body : List Item} {inner : List Node}
    (hx : Scans (conditionHead name prelude) (IsHead (.condition name prelude)))
    (hdepth : depth < maxNesting) (hbody : Rewritten (depth + 1) body inner)
    (h : Rewritten depth items nodes) :
    Rewritten depth (.condition name prelude body :: items)
      (.condition name prelude inner :: nodes) := by
  refine ⟨fun k => ?_, fun k => ?_⟩
  · rw [prettyAll_cons, pretty_condition]
    exact Spelled.prettyBlock k hdepth hx (hbody.spelled (k + 1)) (h.spelled k)
  · rw [itemsOf, items_condition, List.singleton_append, prettyAll_cons, pretty_condition,
      hbody.again, h.again]
    rfl

end Rewritten

/-! ## Flat forms of legible trees -/

/-- The entries of a block, whatever else is in it. -/
theorem Legible.entries {depth : Nat} {nodes : List Node} (h : Legible depth nodes) (d : Nat) :
    ∃ own, Rewritten d (Sheet.entries false nodes) own ∧ ∀ n ∈ own, n.isEntry = true := by
  induction h with
  | nil => exact ⟨[], .nil d, fun _ hn => absurd hn List.not_mem_nil⟩
  | comment hbody _ ih =>
    obtain ⟨own, hown, hentries⟩ := ih
    exact ⟨_, hown.comment hbody, List.forall_mem_cons.2 ⟨rfl, hentries⟩⟩
  | entry hx hclosed _ ih =>
    obtain ⟨own, hown, hentries⟩ := ih
    exact ⟨_, hown.entry hx hclosed, List.forall_mem_cons.2 ⟨rfl, hentries⟩⟩
  | last hx hopen => exact ⟨_, .last hx hopen d, List.forall_mem_singleton.2 rfl⟩
  | rule _ _ _ _ _ _ ih | condition _ _ _ _ _ ih => exact ih

/-- The items of a rule: its block, if it has one, and what is nested in it. -/
theorem items_rule_eq (scope : Option (List String)) (selectors : List String) {body : List Node}
    (hbody : ∀ n ∈ body, n.kind ≠ .selector) :
    ∃ leaf, (Node.rule (selectors.map .selector ++ body)).items false scope =
      ruleBlock (resolveSelectors scope selectors) (entries false body) leaf ++
        itemsOf false (some (resolveSelectors scope selectors)) body := by
  have hnone : ∀ own, itemsOf false (some own) (selectors.map .selector) = [] := by
    intro own
    induction selectors with
    | nil => rfl
    | cons s rest ih => exact ih
  rw [Node.rule, Node.items, entries_rule, itemsOf_append, hnone, List.nil_append,
    selectorTexts_rule selectors hbody]
  exact ⟨_, rfl⟩

/-- The block of the entries of some nodes. -/
theorem Legible.ruleBlock {depth e : Nat} {nodes ns : List Node} {items : List Item}
    {selectors : List String} {leaf : Bool} (h : Legible depth nodes)
    (hheads : LegibleHeads (ruleBlock selectors (Sheet.entries false nodes) leaf))
    (he : e < maxNesting) (hitems : Rewritten e items ns) :
    ∃ ms, Rewritten e (Sheet.ruleBlock selectors (Sheet.entries false nodes) leaf ++ items) ms := by
  obtain ⟨own, hown, hentries⟩ := h.entries (e + 1)
  unfold Sheet.ruleBlock at hheads ⊢
  by_cases hempty : ((Sheet.entries false nodes).isEmpty && !leaf) = true
  · rw [if_pos hempty]
    exact ⟨ns, hitems⟩
  · rw [if_neg hempty] at hheads ⊢
    obtain ⟨n, hblock⟩ := Rewritten.block hheads.block he hown hentries hitems
    exact ⟨n :: ns, hblock⟩

/-- Entries that are comments, in front of other items. -/
theorem Legible.comments {depth e : Nat} {nodes ns : List Node} {items : List Item}
    (h : Legible depth nodes) (hcomments : (Sheet.entries false nodes).all Item.isComment = true)
    (hitems : Rewritten e items ns) : ∃ ms, Rewritten e (Sheet.entries false nodes ++ items) ms := by
  have hentry : ∀ property value, (entryItem property value).isComment = false := by
    intro property value
    unfold entryItem
    split <;> rfl
  induction h with
  | nil => exact ⟨ns, hitems⟩
  | comment hbody _ ih =>
    obtain ⟨ms, hms⟩ := ih hcomments
    exact ⟨_, hms.comment hbody⟩
  | @entry _ _ property value _ _ _ _ | @last _ property value _ _ =>
    have hself : (entryItem property value).isComment = true :=
      (Bool.and_eq_true_iff.1 hcomments).1
    rw [hentry] at hself
    cases hself
  | rule _ _ _ _ _ _ ih | condition _ _ _ _ _ ih => exact ih hcomments

/-- The entries of a condition block inside a rule. -/
theorem Legible.looseItems {depth e : Nat} {nodes ns : List Node} {items : List Item}
    {selectors : List String} (h : Legible depth nodes)
    (hheads : LegibleHeads (looseItems (some selectors) (Sheet.entries false nodes)))
    (he : e < maxNesting) (hitems : Rewritten e items ns) :
    ∃ ms, Rewritten e (Sheet.looseItems (some selectors) (Sheet.entries false nodes) ++ items) ms := by
  simp only [Sheet.looseItems] at hheads ⊢
  by_cases hcomments : (Sheet.entries false nodes).all Item.isComment = true
  · rw [if_pos hcomments]
    exact h.comments hcomments hitems
  · rw [if_neg hcomments] at hheads ⊢
    obtain ⟨own, hown, hentries⟩ := h.entries (e + 1)
    obtain ⟨n, hblock⟩ := Rewritten.block hheads.block he hown hentries hitems
    exact ⟨n :: ns, hblock⟩

/-- What is nested in a rule, in front of other items. Flattening takes at least one block away from
    around it, so an entry that is put into a block of its own finds room there. -/
theorem Legible.nested {depth e : Nat} {nodes ns : List Node} {items : List Item}
    (h : Legible depth nodes) (he : e < depth) (outer : List String)
    (hheads : LegibleHeads (itemsOf false (some outer) nodes)) (hitems : Rewritten e items ns) :
    ∃ ms, Rewritten e (itemsOf false (some outer) nodes ++ items) ms := by
  induction h generalizing e outer items ns with
  | nil => exact ⟨ns, hitems⟩
  | comment _ _ ih | entry _ _ _ ih => exact ih he outer hheads hitems
  | last => exact ⟨ns, hitems⟩
  | @rule depth body nodes selectors hdepth _ _ hbody _ ihbody ih =>
    obtain ⟨leaf, hrule⟩ := items_rule_eq (some outer) selectors hbody.kind_ne_selector
    rw [itemsOf, hrule, legibleHeads_append, legibleHeads_append] at hheads
    obtain ⟨⟨hblock, hinner⟩, hrest⟩ := hheads
    rw [itemsOf, hrule, List.append_assoc, List.append_assoc]
    obtain ⟨ms, hms⟩ := ih he outer hrest hitems
    obtain ⟨ms', hms'⟩ := ihbody (Nat.lt_succ_of_lt he) _ hinner hms
    exact hbody.ruleBlock hblock (Nat.lt_trans he hdepth) hms'
  | @condition depth body nodes name prelude hdepth hx hbody _ ihbody ih =>
    have hcondition : (Node.condition name prelude body).items false (some outer) =
        [.condition name prelude (Sheet.looseItems (some outer) (Sheet.entries false body) ++
          itemsOf false (some outer) body)] := rfl
    rw [itemsOf, hcondition, legibleHeads_append, legibleHeads_condition, legibleHeads_append]
      at hheads
    obtain ⟨⟨hloose, hinner⟩, hrest⟩ := hheads
    rw [itemsOf, hcondition, List.append_assoc]
    obtain ⟨ms, hms⟩ := ih he outer hrest hitems
    obtain ⟨inner, hnested⟩ := ihbody (Nat.succ_lt_succ he) outer hinner (Rewritten.nil (e + 1))
    rw [List.append_nil] at hnested
    obtain ⟨inner', hall⟩ := hbody.looseItems hloose (Nat.lt_of_le_of_lt he hdepth) hnested
    exact ⟨_, .condition hx (Nat.lt_trans he hdepth) hall hms⟩

/-- **The flat form of a legible tree** is read again, if the heads of its blocks are. -/
theorem Legible.rewritten {depth : Nat} {nodes : List Node} (h : Legible depth nodes)
    (hheads : LegibleHeads (itemsOf false none nodes)) :
    ∃ ms, Rewritten depth (itemsOf false none nodes) ms := by
  induction h with
  | nil depth => exact ⟨[], .nil depth⟩
  | comment hbody _ ih =>
    obtain ⟨ms, hms⟩ := ih hheads
    exact ⟨_, hms.comment hbody⟩
  | @entry _ nodes property value hx hclosed _ ih =>
    rw [itemsOf_declaration, legibleHeads_cons] at hheads
    obtain ⟨ms, hms⟩ := ih hheads.2
    exact ⟨_, hms.entry hx hclosed⟩
  | @last depth _ _ hx hopen => exact ⟨_, .last hx hopen depth⟩
  | @rule depth body nodes selectors hdepth _ _ hbody _ ihbody ih =>
    obtain ⟨leaf, hrule⟩ := items_rule_eq none selectors hbody.kind_ne_selector
    rw [itemsOf, hrule, legibleHeads_append, legibleHeads_append] at hheads
    obtain ⟨⟨hblock, hinner⟩, hrest⟩ := hheads
    rw [itemsOf, hrule, List.append_assoc]
    obtain ⟨ms, hms⟩ := ih hrest
    obtain ⟨ms', hms'⟩ := hbody.nested (Nat.lt_succ_self depth) _ hinner hms
    exact hbody.ruleBlock hblock hdepth hms'
  | @condition depth body nodes name prelude hdepth hx hbody _ ihbody ih =>
    rw [itemsOf, items_condition, legibleHeads_append, legibleHeads_condition] at hheads
    obtain ⟨inner, hinner⟩ := ihbody hheads.1
    obtain ⟨ms, hms⟩ := ih hheads.2
    exact ⟨_, .condition hx hdepth hinner hms⟩

/-! ## The second writing -/

/-- A template that is read without faults, with no word that is cut off for what does not follow it,
    and with legible heads in its flat form. -/
structure IsLegibleSheet (template : String) : Prop where
  sound : faults template = []
  words : ∀ t ∈ Token.scan template, t.IsFirm
  heads : LegibleHeads (flatten false (parse template))

/-- **The second text** is the first one with its values ended. -/
theorem pretty_twice {template : String} (h : IsLegibleSheet template) :
    serialize .pretty (parse (serialize .pretty (parse template))) =
      String.ofList (Item.prettyAll 0 (Item.endedAll (flatten false (parse template)))) := by
  obtain ⟨nodes, hnodes⟩ := (legible_read h.sound h.words).rewritten h.heads
  have hfirst : serialize .pretty (parse template) =
      String.ofList (Item.prettyAll 0 (itemsOf false none (read template).nodes)) := rfl
  rw [hfirst, parse, (hnodes.spelled 0).read_eq]
  exact congrArg String.ofList (hnodes.again 0)

/-! ## Settled texts -/

/-- How many values leave a parenthesis open. -/
def openValues (settings : List Setting) : Nat :=
  settings.countP (fun e => ¬ ClosesParens e.value)

theorem openValues_append (a b : List Setting) :
    openValues (a ++ b) = openValues a + openValues b := List.countP_append

theorem openValues_singleton (e : Setting) :
    openValues [e] = if ClosesParens e.value then 0 else 1 := by
  by_cases h : ClosesParens e.value <;> simp [openValues, h]

theorem length_endedValue (value : String) :
    (endedValue value).toList.length =
      value.toList.length + if ClosesParens value then 0 else 1 := by
  unfold endedValue
  split <;> simp

theorem closesParens_empty : ClosesParens "" := by decide +kernel

theorem endedValue_eq_empty_iff {value : String} : endedValue value = "" ↔ value = "" := by
  unfold endedValue
  split
  · exact Iff.rfl
  · next hopen =>
    refine ⟨fun hempty => ?_, fun hempty => absurd (hempty ▸ closesParens_empty) hopen⟩
    have hlist := congrArg String.toList hempty
    simp at hlist

theorem length_statementText (name prelude : String) :
    (statementText name (endedValue prelude)).length =
      (statementText name prelude).length + if ClosesParens prelude then 0 else 1 := by
  unfold statementText
  by_cases h : prelude = ""
  · rw [if_pos h, if_pos (endedValue_eq_empty_iff.2 h), h, if_pos closesParens_empty]
    rfl
  · rw [if_neg h, if_neg (mt endedValue_eq_empty_iff.1 h)]
    simp only [List.length_append, List.length_cons, length_endedValue]
    omega

mutual

/-- Each open value gets one more semicolon. -/
theorem length_pretty_ended (chain : Chain) (within : Option (List String)) (k : Nat) :
    ∀ item : Item, (item.ended.pretty k).length =
      (item.pretty k).length + openValues (item.settings chain within)
  | .comment text => rfl
  | .statement name prelude => by
    rw [Item.ended, Item.pretty, Item.pretty, Item.settings, openValues_singleton,
      List.length_append, List.length_append, length_statementText, Nat.add_assoc]
  | .declaration property value => by
    rw [Item.ended, Item.pretty, Item.pretty, Item.settings, openValues_singleton]
    simp only [List.length_append, length_endedValue]
    omega
  | .block selectors body => by
    rw [Item.ended, pretty_block, pretty_block, Item.settings]
    simp only [blockLines, List.length_append, length_prettyAll_ended chain (some selectors)]
    omega
  | .condition name prelude items => by
    rw [Item.ended, pretty_condition, pretty_condition, Item.settings]
    simp only [blockLines, List.length_append,
      length_prettyAll_ended (chain ++ [(name, prelude)]) within]
    omega
termination_by structural item => item

theorem length_prettyAll_ended (chain : Chain) (within : Option (List String)) (k : Nat) :
    ∀ items : List Item, (Item.prettyAll k (Item.endedAll items)).length =
      (Item.prettyAll k items).length + openValues (Item.settingsAll chain within items)
  | [] => rfl
  | item :: rest => by
    rw [Item.endedAll, prettyAll_cons, prettyAll_cons, Item.settingsAll, openValues_append,
      List.length_append, List.length_append, List.length_cons, List.length_cons,
      length_pretty_ended chain within, length_prettyAll_ended chain within]
    omega
termination_by structural items => items

end

mutual

/-- Items whose values are closed stay as they are. -/
theorem ended_of_closed {chain : Chain} {within : Option (List String)} :
    ∀ item : Item, (∀ e ∈ item.settings chain within, ClosesParens e.value) → item.ended = item
  | .comment text => fun _ => rfl
  | .statement name prelude => fun h => by
    rw [Item.ended, endedValue, if_pos (List.forall_mem_singleton.1 h)]
  | .declaration property value => fun h => by
    rw [Item.ended, endedValue, if_pos (List.forall_mem_singleton.1 h)]
  | .block selectors body => fun h => by rw [Item.ended, endedAll_of_closed body h]
  | .condition name prelude items => fun h => by rw [Item.ended, endedAll_of_closed items h]
termination_by structural item => item

theorem endedAll_of_closed {chain : Chain} {within : Option (List String)} :
    ∀ items : List Item, (∀ e ∈ Item.settingsAll chain within items, ClosesParens e.value) →
      Item.endedAll items = items
  | [] => fun _ => rfl
  | item :: rest => fun h => by
    obtain ⟨hself, hrest⟩ := List.forall_mem_append.1 h
    rw [Item.endedAll, ended_of_closed item hself, endedAll_of_closed rest hrest]
termination_by structural items => items

end

/-- **A text is settled just if its values are closed.** For a legible sheet, what the pretty layout
    writes is read and written again as the same text just if the values of all declarations and the
    preludes of all at-statements close their parentheses. -/
theorem pretty_settles_iff {template : String} (h : IsLegibleSheet template) :
    serialize .pretty (parse (serialize .pretty (parse template))) =
        serialize .pretty (parse template) ↔
      ∀ n ∈ (parse template).preorder, n.kind = .declaration → ClosesParens (n.prop valueKey) := by
  rw [pretty_twice h,
    ← forall_mem_settingsOf_parse (P := fun _ value => ClosesParens value) false template]
  have hfirst : serialize .pretty (parse template) =
      String.ofList (Item.prettyAll 0 (flatten false (parse template))) := rfl
  rw [hfirst]
  constructor
  · intro hsame
    have hlength := length_prettyAll_ended [] none 0 (flatten false (parse template))
    rw [String.ofList_injective hsame] at hlength
    have hnone : openValues (settingsOf false (parse template)) = 0 :=
      (Nat.add_left_cancel hlength.symm).trans rfl
    simpa using List.countP_eq_zero.1 hnone
  · intro hclosed
    rw [endedAll_of_closed _ hclosed]

/-- Rules in rules, one of them with its selectors put together by `&`, and a condition block that is
    moved out of its rule. -/
def nestedSheet : String :=
  ".a, b \x7b &:c, d & \x7b e: f(g; h) \x7d @media (i) \x7b j: k; /* l */ m \x7b\x7d \x7d n: o \x7d @p q"

theorem pretty_settles_nestedSheet : IsLegibleSheet nestedSheet ∧
    serialize .pretty (parse (serialize .pretty (parse nestedSheet))) =
      serialize .pretty (parse nestedSheet) := by
  have h : IsLegibleSheet nestedSheet :=
    ⟨by decide +kernel, by decide +kernel, by unfold LegibleHeads; decide +kernel⟩
  have hclosed : ∀ n ∈ (parse nestedSheet).preorder, n.kind = .declaration →
      ClosesParens (n.prop valueKey) := by decide +kernel
  exact ⟨h, (pretty_settles_iff h).2 hclosed⟩

/-- A value whose parenthesis stays open up to the end of its block. -/
def openSheet : String := "x\x7ba:(b\x7d"

/-- The value takes the semicolon behind it in each time. -/
theorem pretty_unsettled : faults openSheet = [] ∧
    serialize .pretty (parse openSheet) = "x \x7b\n    a: (b;\n\x7d\n" ∧
    serialize .pretty (parse (serialize .pretty (parse openSheet))) =
      "x \x7b\n    a: (b;;\n\x7d\n" ∧
    serialize .pretty (parse (serialize .pretty (parse openSheet))) ≠
      serialize .pretty (parse openSheet) := by
  have hfirst : serialize .pretty (parse openSheet) = "x \x7b\n    a: (b;\n\x7d\n" := by
    decide +kernel
  have hsecond : serialize .pretty (parse "x \x7b\n    a: (b;\n\x7d\n") =
      "x \x7b\n    a: (b;;\n\x7d\n" := by decide +kernel
  rw [hfirst, hsecond]
  exact ⟨by decide +kernel, rfl, rfl, by decide⟩

end Theming.Sheet
