import Theming.Proofs.Sheet.Pruning

set_option autoImplicit false

/-! # Values of properties

The merging passes keep less than the meaning of a stylesheet: only its values, that is, the last
value of every property of every selector (`SameValues`). For a flat rule those are the last values
in the list of its children (`lastValue_flatRule`), so most of the comparison is about lists of
nodes (`lastAssigned`). -/

namespace Theming.Sheet

open Node

/-! ## The same values -/

/-- Two lists of settings have the same last values everywhere. -/
def SameValues (a b : List Setting) : Prop :=
  ∀ chain selector property, Text.headIs '@' property = false →
    lastValue chain selector property a = lastValue chain selector property b

namespace SameValues

theorem refl (a : List Setting) : SameValues a a := fun _ _ _ _ => rfl

theorem of_eq {a b : List Setting} (h : a = b) : SameValues a b := h ▸ refl a

theorem symm {a b : List Setting} (h : SameValues a b) : SameValues b a :=
  fun chain s p hp => (h chain s p hp).symm

theorem trans {a b c : List Setting} (hab : SameValues a b) (hbc : SameValues b c) :
    SameValues a c :=
  fun chain s p hp => (hab chain s p hp).trans (hbc chain s p hp)

theorem append {a a' b b' : List Setting} (ha : SameValues a a') (hb : SameValues b b') :
    SameValues (a ++ b) (a' ++ b') := by
  intro chain s p hp
  rw [lastValue_append, lastValue_append, ha chain s p hp, hb chain s p hp]

end SameValues

/-! ## The last value in a list of nodes -/

/-- Whether a node gives a property a value that is not blank. -/
def Node.assigns (property : String) (n : Node) : Bool :=
  n.kind = .declaration && n.prop propertyKey == property && !Text.allBlank (n.prop valueKey)

/-- The last value that is not blank given to a property by some nodes. -/
def lastAssigned (property : String) (nodes : List Node) : Option String :=
  ((nodes.filter (Node.assigns property)).map (fun m => m.prop valueKey)).getLast?

theorem lastAssigned_append (property : String) (a b : List Node) :
    lastAssigned property (a ++ b) = (lastAssigned property b).or (lastAssigned property a) := by
  simp only [lastAssigned, List.filter_append, List.map_append, List.getLast?_append]

theorem lastAssigned_cons (property : String) (n : Node) (nodes : List Node) :
    lastAssigned property (n :: nodes) =
      (lastAssigned property nodes).or (lastAssigned property [n]) :=
  lastAssigned_append property [n] nodes

theorem lastAssigned_eq_none {property : String} {nodes : List Node}
    (h : ∀ m ∈ nodes, m.kind ≠ .declaration) : lastAssigned property nodes = none := by
  unfold lastAssigned
  rw [List.filter_eq_nil_iff.2 (fun m hm => by simp [assigns, h m hm])]
  rfl

/-- What is last among the settings of nodes is what is last among the nodes. -/
theorem lastValue_ownSettings (chain chain' : Chain) (within : Option (List String))
    (selector : Option String) (property : String) (nodes : List Node) :
    lastValue chain selector property (ownSettings chain' within nodes) =
      if chain' = chain ∧ covers within selector = true then lastAssigned property nodes
      else none := by
  unfold lastValue lastAssigned ownSettings
  rw [List.filter_map, List.map_map, List.filter_filter]
  by_cases h : chain' = chain ∧ covers within selector = true
  · rw [if_pos h]
    obtain ⟨hchain, hcovers⟩ := h
    congr 2
    apply List.filter_congr
    intro n _
    simp [Setting.gives, assigns, hchain, hcovers, Bool.and_assoc, Bool.and_comm]
  · rw [if_neg h]
    -- None of the settings is for this chain and selector.
    have hnone : ∀ n ∈ nodes, ¬ (decide (n.kind = .declaration) &&
        (Setting.gives chain selector property ∘ fun m =>
          (⟨chain', within, m.prop propertyKey, m.prop valueKey⟩ : Setting)) n) = true := by
      intro n _ hn
      simp only [Function.comp_apply, Setting.gives, Bool.and_eq_true, beq_iff_eq] at hn
      exact h ⟨hn.2.1.1.1, hn.2.1.1.2⟩
    have hfilter := List.filter_eq_nil_iff.2 hnone
    simp only [Bool.and_comm] at hfilter ⊢
    rw [hfilter]
    rfl

theorem lastAssigned_filter (property : String) (q : Node → Bool) (nodes : List Node)
    (hq : ∀ n, n.kind = .declaration → q n = true) :
    lastAssigned property (nodes.filter q) = lastAssigned property nodes := by
  unfold lastAssigned
  rw [List.filter_filter]
  congr 2
  apply List.filter_congr
  intro n _
  by_cases hk : n.kind = .declaration
  · simp [hq n hk]
  · simp [assigns, hk]

/-! ## Flat rules -/

theorem isFlatRule_iff {n : Node} :
    n.isFlatRule = true ↔ n.kind = .rule ∧ ∀ m ∈ n.children, m.isBlock = false := by
  simp only [isFlatRule, Bool.and_eq_true, decide_eq_true_eq, Bool.not_eq_true', List.any_eq_false,
    Bool.not_eq_true]

/-- Under selectors, only blocks say something about what is nested. -/
theorem settings_inside_of_not_block (chain : Chain) (selectors : List String) (n : Node)
    (h : n.isBlock = false) : n.settings chain (some selectors) = [] := by
  obtain ⟨kind, properties, children⟩ := n
  cases kind with
  | rule => cases h
  | condition => cases h
  | declaration => rfl
  | root => rfl
  | selector => rfl
  | comment => rfl

/-- A flat rule says what its declarations say, for its own selectors. -/
theorem lastValue_flatRule {n : Node} (hn : n.isFlatRule = true) (chain chain' : Chain)
    (scope : Option (List String)) (selector : Option String) (property : String) :
    lastValue chain selector property (n.settings chain' scope) =
      if chain' = chain ∧
          covers (some (resolveSelectors scope (selectorTexts n.children))) selector = true then
        lastAssigned property n.children
      else none := by
  obtain ⟨hkind, hchildren⟩ := isFlatRule_iff.1 hn
  obtain ⟨kind, properties, children⟩ := n
  cases hkind
  have hnested : settingsAll chain' (some (resolveSelectors scope (selectorTexts children)))
      children = [] :=
    settingsAll_eq_nil _ _ _ (fun m hm => settings_inside_of_not_block _ _ m (hchildren m hm))
  rw [settings, hnested, List.append_nil, lastValue_ownSettings]
  rfl

/-- The last value in a list of lists that agree wherever they say something at all. -/
theorem lastValue_settingsAll_flatMap {α : Type} (chain chain' : Chain)
    (scope : Option (List String)) (selector : Option String) (property : String)
    (f : α → List Node) (c : α → Bool) (value : Option String) (l : List α)
    (h : ∀ a ∈ l, lastValue chain selector property (settingsAll chain' scope (f a)) =
      if c a then value else none) :
    lastValue chain selector property (settingsAll chain' scope (l.flatMap f)) =
      if l.any c then value else none := by
  induction l with
  | nil => rfl
  | cons a rest ih =>
    rw [List.flatMap_cons, settingsAll_append, lastValue_append, h a List.mem_cons_self,
      ih (fun b hb => h b (List.mem_cons_of_mem _ hb)), List.any_cons]
    cases c a <;> cases rest.any c <;> cases value <;> rfl

/-! ## Changes below nodes -/

namespace KeepsHead

variable {F : Node → Node}

theorem setsSame (hF : KeepsHead F) (n m : Node) : (F n).setsSame (F m) = n.setsSame m := by
  simp only [Node.setsSame, setsProperty, isStatement, hF.kind, hF.prop]

theorem isBlock (hF : KeepsHead F) (n : Node) : (F n).isBlock = n.isBlock := by
  simp only [Node.isBlock, hF.kind]

theorem lastAssigned_map (hF : KeepsHead F) (property : String) (nodes : List Node) :
    lastAssigned property (nodes.map F) = lastAssigned property nodes := by
  unfold lastAssigned assigns
  rw [List.filter_map, List.map_map]
  simp only [Function.comp_def, hF.kind, hF.prop]

theorem declarationPairs_map (hF : KeepsHead F) (nodes : List Node) :
    declarationPairs (nodes.map F) = declarationPairs nodes := by
  unfold declarationPairs
  rw [List.filter_map, List.map_map]
  simp only [Function.comp_def, hF.kind, hF.prop]

theorem keepLast_map (hF : KeepsHead F) (nodes : List Node) :
    keepLast (nodes.map F) = (keepLast nodes).map F := by
  induction nodes with
  | nil => rfl
  | cons n rest ih =>
    have hany : (rest.map F).any (F n).setsSame = rest.any n.setsSame := by
      rw [List.any_map]
      simp only [Function.comp_def, hF.setsSame]
    rw [List.map_cons, keepLast, keepLast, hany, ih]
    split
    · rfl
    · rw [List.map_cons]

theorem any_isBlock_map (hF : KeepsHead F) (nodes : List Node) :
    (nodes.map F).any Node.isBlock = nodes.any Node.isBlock := by
  rw [List.any_map]
  simp only [Function.comp_def, hF.isBlock]

end KeepsHead

theorem settings_rule {n : Node} (hn : n.kind = .rule) (chain : Chain)
    (scope : Option (List String)) :
    n.settings chain scope =
      ownSettings chain (some (resolveSelectors scope (selectorTexts n.children))) n.children ++
        settingsAll chain (some (resolveSelectors scope (selectorTexts n.children))) n.children := by
  obtain ⟨kind, properties, children⟩ := n
  cases hn
  rfl

theorem settings_condition {n : Node} (hn : n.kind = .condition) (chain : Chain)
    (scope : Option (List String)) :
    n.settings chain scope =
      looseSettings (n.chainBelow chain) scope n.children ++
        settingsAll (n.chainBelow chain) scope n.children := by
  obtain ⟨kind, properties, children⟩ := n
  cases hn
  rfl

/-- Nodes that are no blocks say nothing about what is below them. -/
theorem KeepsHead.settings_of_not_block {F : Node → Node} (hF : KeepsHead F) {n : Node}
    (hn : n.isBlock = false) (chain : Chain) (scope : Option (List String)) :
    (F n).settings chain scope = n.settings chain scope := by
  have hkind : (F n).kind = n.kind := hF.kind n
  have hproperties : (F n).properties = n.properties := (hF n).2
  obtain ⟨kind, properties, children⟩ := n
  generalize F (.mk kind properties children) = m at hkind hproperties ⊢
  obtain ⟨kind', properties', children'⟩ := m
  cases hkind
  cases hproperties
  cases kind with
  | rule => cases hn
  | condition => cases hn
  | declaration => rfl
  | root => rfl
  | selector => rfl
  | comment => rfl

theorem sameValues_map {F G : Node → Node} (chain : Chain) (scope scope' : Option (List String))
    (nodes : List Node)
    (h : ∀ n ∈ nodes, SameValues ((F n).settings chain scope) ((G n).settings chain scope')) :
    SameValues (settingsAll chain scope (nodes.map F)) (settingsAll chain scope' (nodes.map G)) := by
  induction nodes with
  | nil => exact SameValues.refl _
  | cons n rest ih =>
    rw [List.map_cons, List.map_cons, settingsAll, settingsAll]
    exact (h n List.mem_cons_self).append (ih (fun m hm => h m (List.mem_cons_of_mem _ hm)))

end Theming.Sheet
