import Theming.Sheet.Item
import Theming.Text.Blank

set_option autoImplicit false

/-! # What a stylesheet says

A flat stylesheet says, in the order in which it is written, which property gets which value for
which selectors inside which condition blocks. Each such statement is a `Setting`;
`Item.settings` lists those of an item. Two views of the list are what a reader of the stylesheet
can tell apart: the last value that is not blank for a property of a selector (`lastValue`), and
the at-statements of a block (`statementsAt`).

The main result is `settingsAll_flatten`: the settings of the flat form of a tree are those that
the tree shows directly, `Node.settings`, whether comments are kept or not. Passes over trees are
compared through that form, so no proof about them looks at the flat items again. -/

namespace Theming.Sheet

/-! ## Settings of items -/

/-- The names and preludes of the condition blocks around an item, outermost first. -/
abbrev Chain := List (String × String)

/-- A property with its value, and where it stands: the condition blocks around it and the
    selectors of its block, if it is in one. At-words count as properties too. -/
structure Setting where
  chain : Chain
  selectors : Option (List String)
  property : String
  value : String
deriving Repr, DecidableEq

mutual

/-- The settings of an item inside some condition blocks, and maybe inside a block. -/
def Item.settings (chain : Chain) (within : Option (List String)) : Item → List Setting
  | .comment _ => []
  | .statement name prelude => [⟨chain, within, name, prelude⟩]
  | .declaration property value => [⟨chain, within, property, value⟩]
  | .block selectors body => Item.settingsAll chain (some selectors) body
  | .condition name prelude items => Item.settingsAll (chain ++ [(name, prelude)]) within items
termination_by structural item => item

/-- The settings of several items. -/
def Item.settingsAll (chain : Chain) (within : Option (List String)) : List Item → List Setting
  | [] => []
  | item :: rest => item.settings chain within ++ Item.settingsAll chain within rest
termination_by structural items => items

end

/-! ## What can be told apart -/

/-- Whether a place is in a block of a selector; without a selector, outside of blocks. -/
def covers (within : Option (List String)) (selector : Option String) : Bool :=
  match within, selector with
  | none, none => true
  | some selectors, some s => selectors.contains s
  | _, _ => false

/-- Whether a setting gives a property of a selector a value that is not blank. -/
def Setting.gives (chain : Chain) (selector : Option String) (property : String) (e : Setting) :
    Bool :=
  e.chain == chain && covers e.selectors selector && e.property == property && !Text.allBlank e.value

/-- The last value that is not blank among those given to a property of a selector. -/
def lastValue (chain : Chain) (selector : Option String) (property : String)
    (settings : List Setting) : Option String :=
  ((settings.filter (Setting.gives chain selector property)).map Setting.value).getLast?

/-- Whether a setting is an at-statement right inside some condition blocks and a block. -/
def Setting.isStatementAt (chain : Chain) (within : Option (List String)) (e : Setting) : Bool :=
  e.chain == chain && e.selectors == within && Text.headIs '@' e.property

/-- The at-statements right inside some condition blocks and a block, in order. -/
def statementsAt (chain : Chain) (within : Option (List String)) (settings : List Setting) :
    List (String × String) :=
  (settings.filter (Setting.isStatementAt chain within)).map (fun e => (e.property, e.value))

/-- Two lists of settings have the same last values and the same at-statements everywhere. -/
structure SameMeaning (a b : List Setting) : Prop where
  lastValue : ∀ chain selector property, Text.headIs '@' property = false →
    lastValue chain selector property a = lastValue chain selector property b
  statements : ∀ chain within, statementsAt chain within a = statementsAt chain within b

theorem lastValue_append (chain : Chain) (selector : Option String) (property : String)
    (a b : List Setting) :
    lastValue chain selector property (a ++ b) =
      (lastValue chain selector property b).or (lastValue chain selector property a) := by
  simp only [lastValue, List.filter_append, List.map_append, List.getLast?_append]

theorem statementsAt_append (chain : Chain) (within : Option (List String))
    (a b : List Setting) :
    statementsAt chain within (a ++ b) = statementsAt chain within a ++ statementsAt chain within b := by
  simp only [statementsAt, List.filter_append, List.map_append]

namespace SameMeaning

theorem refl (a : List Setting) : SameMeaning a a := ⟨fun _ _ _ _ => rfl, fun _ _ => rfl⟩

theorem of_eq {a b : List Setting} (h : a = b) : SameMeaning a b := h ▸ refl a

theorem symm {a b : List Setting} (h : SameMeaning a b) : SameMeaning b a :=
  ⟨fun chain s p hp => (h.lastValue chain s p hp).symm,
    fun chain within => (h.statements chain within).symm⟩

theorem trans {a b c : List Setting} (hab : SameMeaning a b) (hbc : SameMeaning b c) :
    SameMeaning a c :=
  ⟨fun chain s p hp => (hab.lastValue chain s p hp).trans (hbc.lastValue chain s p hp),
    fun chain within => (hab.statements chain within).trans (hbc.statements chain within)⟩

theorem append {a a' b b' : List Setting} (ha : SameMeaning a a') (hb : SameMeaning b b') :
    SameMeaning (a ++ b) (a' ++ b') := by
  constructor
  · intro chain s p hp
    rw [lastValue_append, lastValue_append, ha.lastValue chain s p hp, hb.lastValue chain s p hp]
  · intro chain within
    rw [statementsAt_append, statementsAt_append, ha.statements, hb.statements]

end SameMeaning

/-! ## Settings of trees -/

/-- The settings of the declarations among some nodes. -/
def ownSettings (chain : Chain) (within : Option (List String)) (nodes : List Node) :
    List Setting :=
  (nodes.filter (fun m => m.kind = .declaration)).map
    (fun m => ⟨chain, within, m.prop propertyKey, m.prop valueKey⟩)

/-- The settings of the declarations right inside a condition block. Outside of rules they are
    listed with everything else in the block, not here. -/
def looseSettings (chain : Chain) (scope : Option (List String)) (nodes : List Node) :
    List Setting :=
  match scope with
  | none => []
  | some _ => ownSettings chain scope nodes

/-- The condition blocks around the contents of a condition block. -/
def Node.chainBelow (chain : Chain) (n : Node) : Chain :=
  chain ++ [(n.prop nameKey, n.prop preludeKey)]

mutual

/-- The settings that a node shows inside some condition blocks and under some selectors. A rule
    says what stands right inside it before what is nested in it. -/
def Node.settings (chain : Chain) (scope : Option (List String)) : Node → List Setting
  | .mk .rule _ children =>
    let selectors := resolveSelectors scope (Node.selectorTexts children)
    ownSettings chain (some selectors) children ++
      Node.settingsAll chain (some selectors) children
  | .mk .condition properties children =>
    let below := (Node.mk .condition properties []).chainBelow chain
    looseSettings below scope children ++ Node.settingsAll below scope children
  | .mk .declaration properties _ =>
    if scope.isNone then ownSettings chain none [.mk .declaration properties []] else []
  | .mk _ _ _ => []
termination_by structural n => n

/-- The settings that several nodes show. -/
def Node.settingsAll (chain : Chain) (scope : Option (List String)) : List Node → List Setting
  | [] => []
  | n :: rest => n.settings chain scope ++ Node.settingsAll chain scope rest
termination_by structural nodes => nodes

end

/-! ## The flat form says what the tree says -/

theorem Item.settingsAll_append (chain : Chain) (within : Option (List String))
    (a b : List Item) :
    Item.settingsAll chain within (a ++ b) =
      Item.settingsAll chain within a ++ Item.settingsAll chain within b := by
  induction a with
  | nil => rfl
  | cons item rest ih =>
    rw [List.cons_append, Item.settingsAll, Item.settingsAll, ih, List.append_assoc]

theorem settings_ownItem? (dropComments : Bool) (chain : Chain) (within : Option (List String))
    (n : Node) :
    Item.settingsAll chain within (n.ownItem? dropComments).toList =
      ownSettings chain within [n] := by
  unfold Node.ownItem? ownSettings
  cases hk : n.kind with
  | comment => cases dropComments <;> simp [hk, Item.settingsAll, Item.settings]
  | declaration =>
    by_cases hat : Text.headIs '@' (n.prop propertyKey) = true
    · simp [hk, hat, Item.settingsAll, Item.settings]
    · simp [hk, hat, Item.settingsAll, Item.settings]
  | root => simp [hk, Item.settingsAll]
  | rule => simp [hk, Item.settingsAll]
  | selector => simp [hk, Item.settingsAll]
  | condition => simp [hk, Item.settingsAll]

theorem ownSettings_append (chain : Chain) (within : Option (List String)) (a b : List Node) :
    ownSettings chain within (a ++ b) =
      ownSettings chain within a ++ ownSettings chain within b := by
  simp only [ownSettings, List.filter_append, List.map_append]

theorem ownSettings_cons (chain : Chain) (within : Option (List String)) (n : Node)
    (nodes : List Node) :
    ownSettings chain within (n :: nodes) =
      ownSettings chain within [n] ++ ownSettings chain within nodes :=
  ownSettings_append chain within [n] nodes

theorem settingsAll_append (chain : Chain) (scope : Option (List String)) (a b : List Node) :
    Node.settingsAll chain scope (a ++ b) =
      Node.settingsAll chain scope a ++ Node.settingsAll chain scope b := by
  induction a with
  | nil => rfl
  | cons n rest ih =>
    rw [List.cons_append, Node.settingsAll, Node.settingsAll, ih, List.append_assoc]

theorem settings_entries (dropComments : Bool) (chain : Chain) (within : Option (List String))
    (nodes : List Node) :
    Item.settingsAll chain within (entries dropComments nodes) =
      ownSettings chain within nodes := by
  induction nodes with
  | nil => rfl
  | cons n rest ih =>
    have hcons : entries dropComments (n :: rest) =
        (n.ownItem? dropComments).toList ++ entries dropComments rest := by
      unfold entries
      cases h : n.ownItem? dropComments <;> simp [h]
    rw [hcons, Item.settingsAll_append, settings_ownItem?, ih, ← ownSettings_cons]

/-- Comments alone make no block, and say nothing either. -/
theorem settings_comments (chain : Chain) (within : Option (List String)) (items : List Item)
    (h : items.all Item.isComment = true) : Item.settingsAll chain within items = [] := by
  induction items with
  | nil => rfl
  | cons item rest ih =>
    rw [List.all_cons, Bool.and_eq_true] at h
    rw [Item.settingsAll, ih h.2, List.append_nil]
    cases item with
    | comment text => rfl
    | statement => exact absurd h.1 (by simp [Item.isComment])
    | declaration => exact absurd h.1 (by simp [Item.isComment])
    | block => exact absurd h.1 (by simp [Item.isComment])
    | condition => exact absurd h.1 (by simp [Item.isComment])

theorem settings_looseItems (dropComments : Bool) (chain : Chain) (scope : Option (List String))
    (nodes : List Node) :
    Item.settingsAll chain none (looseItems scope (entries dropComments nodes)) =
      looseSettings chain scope nodes := by
  cases scope with
  | none => rfl
  | some selectors =>
    simp only [looseItems, looseSettings]
    by_cases h : (entries dropComments nodes).all Item.isComment = true
    · rw [if_pos h, ← settings_entries dropComments, settings_comments _ _ _ h,
        settings_comments _ _ _ h]
    · rw [if_neg h]
      simp only [Item.settingsAll, Item.settings, List.append_nil, settings_entries]

theorem settings_ruleBlock (chain : Chain) (selectors : List String) (body : List Item)
    (leaf : Bool) :
    Item.settingsAll chain none (ruleBlock selectors body leaf) =
      Item.settingsAll chain (some selectors) body := by
  unfold ruleBlock
  split
  · next h =>
    have hbody : body = [] := by simp_all
    rw [hbody]
    rfl
  · simp only [Item.settingsAll, Item.settings, List.append_nil]

mutual

theorem settings_items (dropComments : Bool) (chain : Chain) (scope : Option (List String)) :
    ∀ n : Node,
      Item.settingsAll chain none (n.items dropComments scope) = n.settings chain scope
  | .mk .rule properties children => by
    simp only [Node.items, Node.settings]
    rw [Item.settingsAll_append, settings_ruleBlock, settings_entries, settings_itemsOf]
  | .mk .condition properties children => by
    simp only [Node.items, Node.settings, Item.settingsAll, Item.settings, List.append_nil]
    rw [Item.settingsAll_append, settings_looseItems, settings_itemsOf]
    rfl
  | .mk .declaration properties children => by
    simp only [Node.items, Node.settings]
    split
    · exact settings_ownItem? dropComments chain none _
    · rfl
  | .mk .root properties children => by
    simp only [Node.items, Node.settings, Node.ownItem?, Node.kind_mk]
    split <;> rfl
  | .mk .selector properties children => by
    simp only [Node.items, Node.settings, Node.ownItem?, Node.kind_mk]
    split <;> rfl
  | .mk .comment properties children => by
    simp only [Node.items, Node.settings, Node.ownItem?, Node.kind_mk]
    cases scope.isNone <;> cases dropComments <;> rfl
termination_by structural n => n

theorem settings_itemsOf (dropComments : Bool) (chain : Chain) (scope : Option (List String)) :
    ∀ nodes : List Node,
      Item.settingsAll chain none (itemsOf dropComments scope nodes) =
        Node.settingsAll chain scope nodes
  | [] => rfl
  | n :: rest => by
    simp only [itemsOf, Node.settingsAll]
    rw [Item.settingsAll_append, settings_items, settings_itemsOf]
termination_by structural nodes => nodes

end

/-- What a stylesheet says. -/
def settingsOf (dropComments : Bool) (tree : Node) : List Setting :=
  Item.settingsAll [] none (flatten dropComments tree)

/-- **The flat form says what the tree says**, with or without comments. -/
theorem settingsOf_eq (dropComments : Bool) (tree : Node) :
    settingsOf dropComments tree = Node.settingsAll [] none tree.children :=
  settings_itemsOf dropComments [] none tree.children

end Theming.Sheet
