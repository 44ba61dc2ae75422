import Mathlib.Data.List.Perm.Basic
import Theming.Proofs.Sheet.Levels
import Theming.Proofs.Sheet.Widths
import Theming.Style.Substitution

set_option autoImplicit false

/-! # Optimized stylesheets are no longer

A tree can lose nodes and still be written at greater length: a rule that loses all there was in it
is written as an empty block. So what is compared is not the passes one by one, but trees in which
every rule has content (`NoHollow`), which is what tidying leaves. For such a node, fewer selectors,
fewer entries and no longer children make no longer items (`NoLonger.node`).

Merging two rules saves a frame. It costs one separator more in the list of selectors, however many
selectors there are around them, or the semicolon between the bodies, and a frame is never less than
that (`width_absorbSelectors_le`, `width_absorbBody_le`).

Main statement: `serialize_optimize_le`. -/

namespace Theming.Sheet

open Node Item

/-! ## Scopes with fewer selectors -/

/-- The selectors around a place are some of those around another one. -/
def Within : Option (List String) → Option (List String) → Prop
  | none, none => True
  | some a, some b => a.Sublist b
  | _, _ => False

theorem Within.refl (scope : Option (List String)) : Within scope scope := by
  cases scope with
  | none => trivial
  | some selectors => exact List.Sublist.refl selectors

theorem Within.cases {scope' scope : Option (List String)} (h : Within scope' scope) :
    (scope' = none ∧ scope = none) ∨ ∃ a b, scope' = some a ∧ scope = some b ∧ a.Sublist b := by
  cases scope' with
  | none =>
    cases scope with
    | none => exact .inl ⟨rfl, rfl⟩
    | some b => exact h.elim
  | some a =>
    cases scope with
    | none => exact h.elim
    | some b => exact .inr ⟨a, b, rfl, rfl, h⟩

theorem Within.resolve {scope' scope : Option (List String)} (h : Within scope' scope)
    {own' own : List String} (hown : own'.Sublist own) :
    (resolveSelectors scope' own').Sublist (resolveSelectors scope own) := by
  obtain ⟨rfl, rfl⟩ | ⟨a, b, rfl, rfl, hab⟩ := h.cases
  · exact hown
  · clear h
    induction hab with
    | slnil => exact List.Sublist.refl _
    | cons outer _ ih => exact ih.trans (List.sublist_append_right _ _)
    | cons_cons outer _ ih => exact (hown.map (selectorBelow outer)).append ih

theorem resolveSelectors_append_perm (scope : Option (List String)) (a b : List String) :
    (resolveSelectors scope (a ++ b)).Perm
      (resolveSelectors scope a ++ resolveSelectors scope b) := by
  cases scope with
  | none => exact List.Perm.refl _
  | some outer =>
    simp only [resolveSelectors, List.map_append]
    exact (List.flatMap_append_perm outer _ _).symm

/-! ## Items of nodes -/

theorem items_of_kind_rule {n : Node} (h : n.kind = .rule) (dropComments : Bool)
    (scope : Option (List String)) :
    n.items dropComments scope =
      ruleBlock (resolveSelectors scope (selectorTexts n.children))
          (entries dropComments n.children)
          (!n.children.any isEntry && (itemsOf dropComments
            (some (resolveSelectors scope (selectorTexts n.children))) n.children).isEmpty) ++
        itemsOf dropComments (some (resolveSelectors scope (selectorTexts n.children)))
          n.children := by
  obtain ⟨kind, properties, children⟩ := n
  cases h
  rfl

theorem items_of_kind_condition {n : Node} (h : n.kind = .condition) (dropComments : Bool)
    (scope : Option (List String)) :
    n.items dropComments scope =
      [.condition (n.prop nameKey) (n.prop preludeKey)
        (looseItems scope (entries dropComments n.children) ++
          itemsOf dropComments scope n.children)] := by
  obtain ⟨kind, properties, children⟩ := n
  cases h
  rfl

theorem items_of_not_isBlock {n : Node} (h : n.isBlock = false) (dropComments : Bool)
    (scope : Option (List String)) :
    n.items dropComments scope =
      if scope.isNone then (n.ownItem? dropComments).toList else [] := by
  obtain ⟨kind, properties, children⟩ := n
  cases kind with
  | rule | condition => cases h
  | root | selector | declaration | comment => rfl

theorem ownItem?_congr {n' n : Node} (hkind : n'.kind = n.kind)
    (hproperties : n'.properties = n.properties) (dropComments : Bool) :
    n'.ownItem? dropComments = n.ownItem? dropComments := by
  obtain ⟨kind', properties', children'⟩ := n'
  obtain ⟨kind, properties, children⟩ := n
  cases hkind
  cases hproperties
  rfl

theorem KeepsHead.entries_map {F : Node → Node} (hF : KeepsHead F) (dropComments : Bool)
    (nodes : List Node) : entries dropComments (nodes.map F) = entries dropComments nodes := by
  rw [entries, List.filterMap_map]
  exact congrArg (nodes.filterMap ·)
    (funext (fun n => ownItem?_congr (hF n).1 (hF n).2 dropComments))

theorem ownItem?_eq_none {n : Node} (h : n.isEntry = false) (dropComments : Bool) :
    n.ownItem? dropComments = none := by
  simp only [isEntry, Bool.or_eq_false_iff, decide_eq_false_iff_not] at h
  unfold Node.ownItem?
  split
  · next hkind => exact absurd hkind h.2
  · next hkind => exact absurd hkind h.1
  · rfl

theorem entries_filter (dropComments : Bool) (q : Node → Bool) (nodes : List Node)
    (hq : ∀ n, n.isEntry = true → q n = true) :
    entries dropComments (nodes.filter q) = entries dropComments nodes := by
  induction nodes with
  | nil => rfl
  | cons n rest ih =>
    unfold entries at ih ⊢
    cases hn : q n with
    | true => rw [List.filter_cons_of_pos hn, List.filterMap_cons, List.filterMap_cons, ih]
    | false =>
      have hentry : n.isEntry = false := Bool.eq_false_iff.2 (fun h => by
        rw [hq n h] at hn
        cases hn)
      rw [List.filter_cons_of_neg (by simp [hn]),
        List.filterMap_cons_none (ownItem?_eq_none hentry dropComments), ih]

theorem entries_ne_nil (dropComments : Bool) {m : Node} {nodes : List Node} (hm : m ∈ nodes)
    (hkind : m.kind = .declaration) : entries dropComments nodes ≠ [] := by
  obtain ⟨item, hitem⟩ : ∃ item, m.ownItem? dropComments = some item := by
    rw [Node.ownItem?, hkind]
    exact ⟨_, rfl⟩
  exact List.ne_nil_of_mem (List.mem_filterMap.2 ⟨m, hm, hitem⟩)

theorem widthAll_itemsOf (minify : Bool) (depth : Nat) (dropComments : Bool)
    (scope : Option (List String)) (nodes : List Node) :
    widthAll minify depth (itemsOf dropComments scope nodes) =
      (nodes.map (fun n => widthAll minify depth (n.items dropComments scope))).sum := by
  induction nodes with
  | nil => rfl
  | cons n rest ih => rw [itemsOf, widthAll_append, ih, List.map_cons, List.sum_cons]

theorem widthAll_itemsOf_le_of_sublist (minify : Bool) (depth : Nat) (dropComments : Bool)
    (scope : Option (List String)) {a b : List Node} (h : a.Sublist b) :
    widthAll minify depth (itemsOf dropComments scope a) ≤
      widthAll minify depth (itemsOf dropComments scope b) := by
  rw [widthAll_itemsOf, widthAll_itemsOf]
  exact (h.map _).sum_le_sum (fun _ _ => Nat.zero_le _)

/-! ## Rules with content -/

/-- Every rule of a tree has a declaration or a block in it. -/
def NoHollow (n : Node) : Prop := ∀ m ∈ n.preorder, m.kind = .rule → m.hasContent = true

theorem noHollow_iff {n : Node} :
    NoHollow n ↔ (n.kind = .rule → n.hasContent = true) ∧ ∀ c ∈ n.children, NoHollow c :=
  everywhere_iff

theorem AllFilled.noHollow {n : Node} (h : AllFilled n)
    (hself : n.kind = .rule → n.hasContent = true) : NoHollow n := by
  refine noHollow_iff.2 ⟨hself, fun c hc m hm hkind => ?_⟩
  exact h m (mem_preorderAll.2 ⟨c, hc, hm⟩) (by simp [isBlock, hkind])

theorem itemsOf_ne_nil {dropComments : Bool} {scope : Option (List String)} {m : Node}
    {nodes : List Node} (hm : m ∈ nodes) (h : m.items dropComments scope ≠ []) :
    itemsOf dropComments scope nodes ≠ [] := by
  induction nodes with
  | nil => cases hm
  | cons n rest ih =>
    rw [itemsOf]
    rcases List.mem_cons.1 hm with rfl | hm
    · exact List.append_ne_nil_of_left_ne_nil h _
    · exact List.append_ne_nil_of_right_ne_nil _ (ih hm)

/-- A block in which every rule has content is written as something, also inside a rule. -/
theorem items_ne_nil {n : Node} (h : NoHollow n) (hblock : n.isBlock = true) (dropComments : Bool)
    (selectors : List String) : n.items dropComments (some selectors) ≠ [] := by
  induction n using children_induction generalizing selectors with
  | step n ih =>
    obtain ⟨hself, hbelow⟩ := noHollow_iff.1 h
    by_cases hkind : n.kind = .rule
    · rw [items_of_kind_rule hkind]
      obtain ⟨m, hm, hcontent⟩ := List.any_eq_true.1 (hself hkind)
      rw [Bool.or_eq_true, decide_eq_true_eq] at hcontent
      rcases hcontent with hdeclaration | hinner
      · -- The declaration stands in the block of the rule itself.
        obtain ⟨first, rest, hcons⟩ :=
          List.exists_cons_of_ne_nil (entries_ne_nil dropComments hm hdeclaration)
        rw [hcons]
        exact List.cons_ne_nil _ _
      · exact List.append_ne_nil_of_right_ne_nil _
          (itemsOf_ne_nil hm (ih m hm (hbelow m hm) hinner _))
    · have hcondition : n.kind = .condition := by simpa [isBlock, hkind] using hblock
      rw [items_of_kind_condition hcondition]
      exact List.cons_ne_nil _ _

/-- A rule with content gets no empty block. -/
theorem items_of_noHollow {n : Node} (h : NoHollow n) (hkind : n.kind = .rule)
    (dropComments : Bool) (scope : Option (List String)) :
    n.items dropComments scope =
      ruleBlock (resolveSelectors scope (selectorTexts n.children))
          (entries dropComments n.children) false ++
        itemsOf dropComments (some (resolveSelectors scope (selectorTexts n.children)))
          n.children := by
  obtain ⟨hself, hbelow⟩ := noHollow_iff.1 h
  obtain ⟨m, hm, hcontent⟩ := List.any_eq_true.1 (hself hkind)
  rw [Bool.or_eq_true, decide_eq_true_eq] at hcontent
  rw [items_of_kind_rule hkind]
  congr 2
  rcases hcontent with hdeclaration | hinner
  · have hany : n.children.any isEntry = true :=
      List.any_eq_true.2 ⟨m, hm, by simp [isEntry, hdeclaration]⟩
    rw [hany]
    rfl
  · have hnested := itemsOf_ne_nil hm (items_ne_nil (hbelow m hm) hinner dropComments
      (resolveSelectors scope (selectorTexts n.children)))
    rw [List.isEmpty_eq_false_iff.2 hnested, Bool.and_false]

/-! ## Shorter items -/

/-- Whatever the layout and the place, some nodes are written in no more bytes than other ones, also
    under fewer selectors. -/
def NoLonger (nodes' nodes : List Node) : Prop :=
  ∀ (minify : Bool) (depth : Nat) (dropComments : Bool) (scope' scope : Option (List String)),
    Within scope' scope →
      widthAll minify depth (itemsOf dropComments scope' nodes') ≤
        widthAll minify depth (itemsOf dropComments scope nodes)

namespace NoLonger

variable {a b c : List Node} {n n' : Node}

theorem trans (hab : NoLonger a b) (hbc : NoLonger b c) : NoLonger a c :=
  fun minify depth dropComments scope' scope h =>
    Nat.le_trans (hab minify depth dropComments scope' scope' (Within.refl scope'))
      (hbc minify depth dropComments scope' scope h)

theorem nil : NoLonger [] [] := fun _ _ _ _ _ _ => Nat.le_refl _

theorem cons (hself : NoLonger [n'] [n]) (hrest : NoLonger a b) : NoLonger (n' :: a) (n :: b) := by
  intro minify depth dropComments scope' scope h
  have hone := hself minify depth dropComments scope' scope h
  rw [itemsOf, itemsOf, itemsOf, itemsOf, List.append_nil, List.append_nil] at hone
  rw [itemsOf, itemsOf, widthAll_append, widthAll_append]
  exact Nat.add_le_add hone (hrest minify depth dropComments scope' scope h)

theorem of_sublist (h : NoLonger a b) (hsub : b.Sublist c) : NoLonger a c :=
  fun minify depth dropComments scope' scope hscope =>
    Nat.le_trans (h minify depth dropComments scope' scope hscope)
      (widthAll_itemsOf_le_of_sublist minify depth dropComments scope hsub)

theorem map {F : Node → Node} {nodes : List Node} (h : ∀ n ∈ nodes, NoLonger [F n] [n]) :
    NoLonger (nodes.map F) nodes := by
  induction nodes with
  | nil => exact nil
  | cons n rest ih =>
    exact cons (h n List.mem_cons_self) (ih (fun m hm => h m (List.mem_cons_of_mem n hm)))

end NoLonger

section Blocks

variable (minify : Bool) (depth : Nat) {selectors' selectors : List String}
  {body' body : List Item}

theorem width_block_le (hselectors : selectors'.Sublist selectors) (hbody : body'.Sublist body) :
    (Item.block selectors' body').width minify depth ≤
      (Item.block selectors body).width minify depth := by
  have hlist := listWidth_le_of_sublist minify hselectors
  have hinner := bodyWidth_le_of_sublist minify depth hbody
  rw [width_block, width_block]
  omega

theorem widthAll_ruleBlock_of_ne_nil (selectors : List String) (h : body ≠ []) (leaf : Bool) :
    widthAll minify depth (ruleBlock selectors body leaf) =
      (Item.block selectors body).width minify depth := by
  obtain ⟨item, rest, rfl⟩ := List.exists_cons_of_ne_nil h
  exact Nat.add_zero _

/-- A block is dropped only where no entry is left. -/
theorem widthAll_ruleBlock_le (hselectors : selectors'.Sublist selectors)
    (hbody : body'.Sublist body) (leaf : Bool) :
    widthAll minify depth (ruleBlock selectors' body' false) ≤
      widthAll minify depth (ruleBlock selectors body leaf) := by
  by_cases hnil : body' = []
  · rw [hnil]
    exact Nat.zero_le _
  · have hne : body ≠ [] := fun h => hnil (List.sublist_nil.1 (h ▸ hbody))
    rw [widthAll_ruleBlock_of_ne_nil minify depth _ hnil,
      widthAll_ruleBlock_of_ne_nil minify depth _ hne]
    exact width_block_le minify depth hselectors hbody

/-- Comments that lose their block lose more than they had. -/
theorem widthAll_looseItems_le {scope' scope : Option (List String)} (hscope : Within scope' scope)
    (hbody : body'.Sublist body) :
    widthAll minify depth (looseItems scope' body') ≤
      widthAll minify depth (looseItems scope body) := by
  obtain ⟨rfl, rfl⟩ | ⟨selectors', selectors, rfl, rfl, hselectors⟩ := hscope.cases
  · exact Nat.le_refl _
  · rw [looseItems, looseItems]
    by_cases hcomments : body.all isComment = true
    · have hcomments' : body'.all isComment = true :=
        List.all_eq_true.2 (fun item hitem =>
          List.all_eq_true.1 hcomments item (hbody.subset hitem))
      rw [if_pos hcomments, if_pos hcomments']
      exact widthAll_le_of_sublist minify depth hbody
    · rw [if_neg hcomments]
      split
      · next hcomments' =>
        have hdeeper := widthAll_le_succ hcomments' minify depth
        have hfewer := widthAll_le_of_sublist minify (depth + 1) hbody
        have hinner := widthAll_le_bodyWidth minify depth body
        have hframe := frameWidth_pos minify depth
        rw [widthAll_cons, width_block]
        omega
      · exact Nat.add_le_add_right (width_block_le minify depth hselectors hbody) 0

end Blocks

/-- **A node with no more in it is no longer**, provided that its rules have content: fewer
    selectors, fewer entries and children that are no longer. -/
theorem NoLonger.node {n' n : Node} (hkind : n'.kind = n.kind)
    (hproperties : n'.properties = n.properties) (hfilled : NoHollow n')
    (hselectors : (selectorTexts n'.children).Sublist (selectorTexts n.children))
    (hentries : ∀ dropComments,
      (entries dropComments n'.children).Sublist (entries dropComments n.children))
    (hchildren : NoLonger n'.children n.children) : NoLonger [n'] [n] := by
  intro minify depth dropComments scope' scope hscope
  rw [itemsOf, itemsOf, itemsOf, itemsOf, List.append_nil, List.append_nil]
  -- A rule has a block and nested items, a condition block has both inside, and any other node is
  -- written as itself.
  by_cases hrule : n.kind = .rule
  · have hown := hscope.resolve hselectors
    rw [items_of_noHollow hfilled (hkind.trans hrule), items_of_kind_rule hrule, widthAll_append,
      widthAll_append]
    exact Nat.add_le_add (widthAll_ruleBlock_le minify depth hown (hentries dropComments) _)
      (hchildren minify depth dropComments _ _ hown)
  by_cases hcondition : n.kind = .condition
  · have hprop : ∀ key, n'.prop key = n.prop key := fun key => by
      rw [prop, prop, hproperties]
    have hloose := widthAll_looseItems_le minify (depth + 1) hscope (hentries dropComments)
    have hinner := hchildren minify (depth + 1) dropComments scope' scope hscope
    rw [items_of_kind_condition (hkind.trans hcondition), items_of_kind_condition hcondition,
      widthAll_cons, widthAll_cons, width_condition, width_condition, hprop, hprop,
      widthAll_append, widthAll_append]
    omega
  · have hblock : n.isBlock = false := by simp [isBlock, hrule, hcondition]
    have hblock' : n'.isBlock = false := by rw [isBlock, hkind]; exact hblock
    have htop : scope'.isNone = scope.isNone := by
      obtain ⟨rfl, rfl⟩ | ⟨a, b, rfl, rfl, -⟩ := hscope.cases <;> rfl
    rw [items_of_not_isBlock hblock', items_of_not_isBlock hblock,
      ownItem?_congr hkind hproperties, htop]

/-! ## Tidying -/

theorem children_tidy (n : Node) :
    n.tidy.children =
      ((n.children.filter (fun c => !c.setsNothing && (!c.tidy.isBlock || c.tidy.hasContent))).map
        tidy) := by
  have hdeclarations : n.dropEmptyDeclarations.children =
      (n.children.filter (fun c => !c.setsNothing)).map dropEmptyDeclarations := by
    unfold dropEmptyDeclarations
    rw [children_rebuild, List.filter_map]
    simp only [Function.comp_def, setsNothing_rebuild]
  show n.dropEmptyDeclarations.dropEmptyBlocks.children = _
  conv => lhs; unfold dropEmptyBlocks
  rw [children_rebuild, hdeclarations, List.map_map, List.filter_map, List.filter_filter]
  simp only [Function.comp_def, Bool.and_comm]
  rfl

theorem keepsHead_tidy : KeepsHead tidy :=
  (keepsHead_rebuild _).comp (keepsHead_rebuild _)

/-- **Tidying makes no node longer.** -/
theorem noLonger_tidy (n : Node) : NoLonger n.tidy.children n.children := by
  induction n using children_induction with
  | step n ih =>
    rw [children_tidy]
    refine (NoLonger.map (fun c hc => ?_)).of_sublist List.filter_sublist
    obtain ⟨hc, htest⟩ := List.mem_filter.1 hc
    -- The test is made on the tidy child: that is why both passes are taken together.
    have hkept : c.tidy.kind = .rule → c.tidy.hasContent = true := fun hkind => by
      simpa [isBlock, hkind] using (Bool.and_eq_true_iff.1 htest).2
    refine NoLonger.node (keepsHead_tidy c).1 (keepsHead_tidy c).2
      ((allFilled_tidy c).noHollow hkept) ?_ ?_ (ih c hc)
    · rw [children_tidy, keepsHead_tidy.selectorTexts_map]
      exact (List.filter_sublist.filter _).map _
    · intro dropComments
      rw [children_tidy, keepsHead_tidy.entries_map]
      exact List.filter_sublist.filterMap _

/-! ## Later passes -/

/-- A change of lists of children that makes no list longer. -/
structure Shortens (f : Kind → List Node → List Node) : Prop where
  selectors : ∀ kind nodes, (selectorTexts (f kind nodes)).Sublist (selectorTexts nodes)
  entries : ∀ dropComments kind nodes,
    (entries dropComments (f kind nodes)).Sublist (entries dropComments nodes)
  content : ∀ nodes, (f .rule nodes).any isContent = nodes.any isContent
  noHollow : ∀ kind nodes, (∀ n ∈ nodes, NoHollow n) → ∀ n ∈ f kind nodes, NoHollow n
  width : ∀ minify depth dropComments scope kind nodes,
    widthAll minify depth (itemsOf dropComments scope (f kind nodes)) ≤
      widthAll minify depth (itemsOf dropComments scope nodes)

namespace Shortens

variable {f : Kind → List Node → List Node}

theorem noHollow_rebuild (hf : Shortens f) {n : Node} (h : NoHollow n) :
    NoHollow (n.rebuild f) := by
  refine everywhere_rebuild hf.noHollow (fun m hm hkind => ?_) h
  rw [kind_rebuild] at hkind
  have hcontent : m.children.any isContent = true := hm hkind
  show (m.rebuild f).children.any isContent = true
  rw [children_rebuild, hkind, hf.content, (keepsHead_rebuild f).any_isContent_map, hcontent]

/-- **A pass that makes no list longer makes no tree longer**, if every rule in it has content. -/
theorem noLonger_rebuild (hf : Shortens f) {n : Node} (h : NoHollow n) :
    NoLonger (n.rebuild f).children n.children := by
  induction n using children_induction with
  | step n ih =>
    have hmap : NoLonger (n.children.map (rebuild f)) n.children := by
      refine NoLonger.map (fun c hc => ?_)
      have hfilled := (noHollow_iff.1 h).2 c hc
      refine NoLonger.node (kind_rebuild f c) (properties_rebuild f c)
        (hf.noHollow_rebuild hfilled) ?_ ?_ (ih c hc hfilled)
      · rw [children_rebuild, ← (keepsHead_rebuild f).selectorTexts_map c.children]
        exact hf.selectors _ _
      · intro dropComments
        rw [children_rebuild, ← (keepsHead_rebuild f).entries_map dropComments c.children]
        exact hf.entries dropComments _ _
    rw [children_rebuild]
    intro minify depth dropComments scope' scope hscope
    exact Nat.le_trans (hf.width minify depth dropComments scope' n.kind _)
      (hmap minify depth dropComments scope' scope hscope)

/-- A pass that only drops nodes, and leaves rules content if they had some. -/
theorem of_sublist (hsub : ∀ kind nodes, (f kind nodes).Sublist nodes)
    (hcontent : ∀ nodes, (f .rule nodes).any isContent = nodes.any isContent) : Shortens f where
  selectors kind nodes := ((hsub kind nodes).filter _).map _
  entries _ kind nodes := (hsub kind nodes).filterMap _
  content := hcontent
  noHollow kind nodes h n hn := h n ((hsub kind nodes).subset hn)
  width minify depth dropComments scope kind nodes :=
    widthAll_itemsOf_le_of_sublist minify depth dropComments scope (hsub kind nodes)

end Shortens

/-! ## Merging rules -/

theorem selectorTexts_eq_filterMap (nodes : List Node) :
    selectorTexts nodes =
      nodes.filterMap (fun n => if n.kind = .selector then some (n.prop textKey) else none) := by
  rw [selectorTexts, ← List.filterMap_eq_map, List.filterMap_filter]
  congr 1
  funext n
  by_cases h : n.kind = .selector <;> simp [h]

theorem selectorTexts_foldRules {alike : Node → Node → Bool} {absorb : Node → Node → Node}
    (h : Absorbs alike absorb) (nodes : List Node) :
    selectorTexts (foldRules alike absorb nodes) = selectorTexts nodes := by
  rw [selectorTexts_eq_filterMap, selectorTexts_eq_filterMap]
  exact filterMap_foldRules h _ (fun n hn => by rw [(isFlatRule_iff.1 hn).1]; rfl) nodes

/-- A pass that merges rules: it costs no more than two rules take. -/
theorem shortens_foldRules {alike : Node → Node → Bool} {absorb : Node → Node → Node}
    (h : Absorbs alike absorb)
    (hfilled : ∀ a b, NoHollow a → NoHollow b → NoHollow (absorb a b))
    (hwidth : ∀ minify depth dropComments scope a b, takes alike a b = true →
      widthAll minify depth ((absorb a b).items dropComments scope) ≤
        widthAll minify depth (a.items dropComments scope) +
          widthAll minify depth (b.items dropComments scope)) :
    Shortens (fun kind nodes => if mergesIn kind then foldRules alike absorb nodes else nodes) where
  selectors kind nodes := by
    split
    · rw [selectorTexts_foldRules h]
    · exact List.Sublist.refl _
  entries dropComments kind nodes := by
    split
    · have hsame : entries dropComments (foldRules alike absorb nodes) =
          entries dropComments nodes :=
        filterMap_foldRules h (Node.ownItem? dropComments)
          (fun n hn => by rw [Node.ownItem?, (isFlatRule_iff.1 hn).1]) nodes
      rw [hsame]
    · exact List.Sublist.refl _
  content nodes := rfl
  noHollow kind nodes hnodes := by
    split
    · exact forall_mem_foldRules h (P := NoHollow) hfilled hnodes
    · exact hnodes
  width minify depth dropComments scope kind nodes := by
    split
    · rw [widthAll_itemsOf, widthAll_itemsOf]
      exact sum_foldRules_le h _ (hwidth minify depth dropComments scope) nodes
    · exact Nat.le_refl _

/-! ### Flat rules -/

section Rules

variable {a b : Node}

theorem items_of_isFlatRule (h : a.isFlatRule = true) (dropComments : Bool)
    (scope : Option (List String)) :
    a.items dropComments scope =
      ruleBlock (resolveSelectors scope (selectorTexts a.children))
        (entries dropComments a.children) (!a.children.any isEntry) := by
  obtain ⟨hkind, hflat⟩ := isFlatRule_iff.1 h
  have hnested : ∀ selectors nodes, (∀ m ∈ nodes, m.isBlock = false) →
      itemsOf dropComments (some selectors) nodes = [] := by
    intro selectors nodes hnodes
    induction nodes with
    | nil => rfl
    | cons m rest ih =>
      obtain ⟨hm, hrest⟩ := List.forall_mem_cons.1 hnodes
      rw [itemsOf, items_of_not_isBlock hm, ih hrest]
      rfl
  rw [items_of_kind_rule hkind, hnested _ _ hflat, List.append_nil]
  simp only [List.isEmpty_nil, Bool.and_true]

theorem entries_append (dropComments : Bool) (x y : List Node) :
    entries dropComments (x ++ y) = entries dropComments x ++ entries dropComments y :=
  List.filterMap_append

theorem any_isEntry_filter (q : Node → Bool) (nodes : List Node)
    (hq : ∀ n, n.isEntry = true → q n = true) :
    (nodes.filter q).any isEntry = nodes.any isEntry := by
  rw [List.any_filter]
  congr 1
  funext n
  cases hn : n.isEntry with
  | true => rw [hq n hn]; rfl
  | false => exact Bool.and_false _

theorem ne_selector_of_isEntry {n : Node} (h : n.isEntry = true) :
    decide (n.kind ≠ .selector) = true := by
  simp only [isEntry, Bool.or_eq_true, decide_eq_true_eq] at h
  rcases h with h | h <;> simp [h]

theorem entries_absorbBody (dropComments : Bool) (a b : Node) :
    entries dropComments (absorbBody a b).children =
      entries dropComments a.children ++ entries dropComments b.children := by
  rw [children_absorbBody, entries_append,
    entries_filter dropComments _ _ (fun _ => ne_selector_of_isEntry)]

/-- Two bodies in one block: a frame is saved, and a semicolon comes in. -/
theorem widthAll_ruleBlock_append_le (minify : Bool) (depth : Nat) (selectors : List String)
    (x y : List Item) (p q : Bool) :
    widthAll minify depth (ruleBlock selectors (x ++ y) (p && q)) ≤
      widthAll minify depth (ruleBlock selectors x p) +
        widthAll minify depth (ruleBlock selectors y q) := by
  by_cases hx : x = []
  · rw [hx, List.nil_append]
    cases p with
    | false =>
      rw [Bool.false_and]
      exact Nat.le_trans (widthAll_ruleBlock_le minify depth (List.Sublist.refl _)
        (List.Sublist.refl _) q) (Nat.le_add_left _ _)
    | true =>
      rw [Bool.true_and]
      exact Nat.le_add_left _ _
  by_cases hy : y = []
  · rw [hy, List.append_nil, widthAll_ruleBlock_of_ne_nil minify depth _ hx,
      widthAll_ruleBlock_of_ne_nil minify depth _ hx]
    exact Nat.le_add_right _ _
  · have hinner := bodyWidth_append_le minify depth x y
    have hframe := frameWidth_pos minify depth
    rw [widthAll_ruleBlock_of_ne_nil minify depth _ (List.append_ne_nil_of_left_ne_nil hx y),
      widthAll_ruleBlock_of_ne_nil minify depth _ hx,
      widthAll_ruleBlock_of_ne_nil minify depth _ hy, width_block, width_block, width_block]
    omega

/-- **A rule that takes the body of another one is no longer than the two.** -/
theorem width_absorbBody_le (minify : Bool) (depth : Nat) (dropComments : Bool)
    (scope : Option (List String)) (a b : Node) (h : takes sameSelectors a b = true) :
    widthAll minify depth ((absorbBody a b).items dropComments scope) ≤
      widthAll minify depth (a.items dropComments scope) +
        widthAll minify depth (b.items dropComments scope) := by
  obtain ⟨ha, hb, hselectors⟩ := sameRule_iff.1 h
  have hentry : (!(absorbBody a b).children.any isEntry) =
      (!a.children.any isEntry && !b.children.any isEntry) := by
    rw [children_absorbBody, List.any_append,
      any_isEntry_filter _ _ (fun _ => ne_selector_of_isEntry), Bool.not_or]
  rw [items_of_isFlatRule (isFlatRule_absorbBody ha hb), items_of_isFlatRule ha,
    items_of_isFlatRule hb, selectorTexts_absorbBody, entries_absorbBody, hentry, ← hselectors]
  exact widthAll_ruleBlock_append_le minify depth _ _ _ _ _

theorem entries_absorbSelectors (dropComments : Bool) (a b : Node) :
    entries dropComments (absorbSelectors a b).children = entries dropComments a.children := by
  have hnone : ∀ nodes : List Node, (∀ m ∈ nodes, m.kind = .selector) →
      entries dropComments nodes = [] := by
    intro nodes hnodes
    refine List.filterMap_eq_nil_iff.2 (fun m hm => ?_)
    rw [Node.ownItem?, hnodes m hm]
  rw [children_absorbSelectors, entries_append, entries_append, hnone, hnone, List.nil_append,
    List.nil_append, entries_filter dropComments _ _ (fun _ => ne_selector_of_isEntry)]
  · exact fun m hm => kind_of_mem_newSelectors hm
  · exact fun m hm => by simpa using (List.mem_filter.1 hm).2

/-- Rules with the same declarations have declarations. -/
theorem entries_ne_nil_of_sameDeclarations (dropComments : Bool)
    (h : sameDeclarations a b = true) :
    entries dropComments a.children ≠ [] ∧ entries dropComments b.children ≠ [] := by
  have hentries : ∀ {pair nodes}, pair ∈ declarationPairs nodes →
      entries dropComments nodes ≠ [] := by
    intro pair nodes hpair
    obtain ⟨m, hm, -⟩ := List.mem_map.1 hpair
    obtain ⟨hm, hkind⟩ := List.mem_filter.1 hm
    exact entries_ne_nil dropComments hm (of_decide_eq_true hkind)
  unfold sameDeclarations at h
  simp only [Bool.and_eq_true, Bool.not_eq_true', List.isEmpty_eq_false_iff] at h
  obtain ⟨⟨hb, -⟩, hall⟩ := h
  obtain ⟨pair, hpair⟩ := List.exists_mem_of_ne_nil _ hb
  have hmem := List.all_eq_true.1 hall pair hpair
  exact ⟨hentries (List.contains_iff_mem.1 hmem), hentries hpair⟩

/-- **A rule that takes the selectors of another one is no longer than the two.** -/
theorem width_absorbSelectors_le (minify : Bool) (depth : Nat) (dropComments : Bool)
    (scope : Option (List String)) (a b : Node) (h : takes sameDeclarations a b = true) :
    widthAll minify depth ((absorbSelectors a b).items dropComments scope) ≤
      widthAll minify depth (a.items dropComments scope) +
        widthAll minify depth (b.items dropComments scope) := by
  obtain ⟨ha, hb, hsame⟩ := takes_iff.1 h
  obtain ⟨hbodyA, hbodyB⟩ := entries_ne_nil_of_sameDeclarations dropComments hsame
  -- The new selectors are some of those of the other rule, under each selector of the scope.
  have hnew : ((selectorTexts b.children).filter
      (fun text => !(selectorTexts a.children).contains text)).Sublist
        (selectorTexts b.children) := List.filter_sublist
  have hless := listWidth_le_of_sublist minify ((Within.refl scope).resolve hnew)
  have hlist := listWidth_le_of_perm minify (resolveSelectors_append_perm scope
    (selectorTexts a.children) ((selectorTexts b.children).filter
      (fun text => !(selectorTexts a.children).contains text)))
  have hframe := separatorWidth_le_frameWidth minify depth
  rw [items_of_isFlatRule (isFlatRule_absorbSelectors ha b), items_of_isFlatRule ha,
    items_of_isFlatRule hb, entries_absorbSelectors, selectorTexts_absorbSelectors,
    widthAll_ruleBlock_of_ne_nil minify depth _ hbodyA,
    widthAll_ruleBlock_of_ne_nil minify depth _ hbodyA,
    widthAll_ruleBlock_of_ne_nil minify depth _ hbodyB, width_block, width_block, width_block]
  omega

theorem noHollow_absorbBody (ha : NoHollow a) (hb : NoHollow b) : NoHollow (absorbBody a b) := by
  obtain ⟨hself, hbelow⟩ := noHollow_iff.1 ha
  refine noHollow_iff.2 ⟨fun hkind => ?_, fun c hc => ?_⟩
  · have hcontent := hself ((kind_withChildren _ _).symm.trans hkind)
    unfold hasContent at hcontent ⊢
    rw [children_absorbBody, List.any_append, hcontent, Bool.true_or]
  · rw [children_absorbBody] at hc
    rcases List.mem_append.1 hc with hc | hc
    · exact hbelow c hc
    · exact (noHollow_iff.1 hb).2 c (List.mem_filter.1 hc).1

theorem noHollow_absorbSelectors (ha : NoHollow a) (b : Node) : NoHollow (absorbSelectors a b) := by
  obtain ⟨hself, hbelow⟩ := noHollow_iff.1 ha
  refine noHollow_iff.2 ⟨fun hkind => ?_, fun c hc => ?_⟩
  · obtain ⟨m, hm, hcontent⟩ :=
      List.any_eq_true.1 (hself ((kind_withChildren _ _).symm.trans hkind))
    have hbody : m.kind ≠ .selector := fun h => by simp [isBlock, h] at hcontent
    refine List.any_eq_true.2 ⟨m, ?_, hcontent⟩
    rw [children_absorbSelectors]
    exact List.mem_append_right _ (List.mem_filter.2 ⟨hm, decide_eq_true hbody⟩)
  · rw [children_absorbSelectors] at hc
    rcases List.mem_append.1 hc with hc | hc
    · rcases List.mem_append.1 hc with hc | hc
      · exact hbelow c (List.mem_filter.1 hc).1
      · obtain ⟨text, -, rfl⟩ := List.mem_map.1 hc
        exact noHollow_iff.2 ⟨fun h => (by cases h), fun _ h => (by cases h)⟩
    · exact hbelow c (List.mem_filter.1 hc).1

end Rules

/-! ## Levels -/

theorem any_keepFirst {q : Node → Bool} (hq : ∀ n : Node, n.kind = .selector → q n = false)
    (seen : List String) (nodes : List Node) : (keepFirst seen nodes).any q = nodes.any q := by
  induction nodes generalizing seen with
  | nil => rfl
  | cons n rest ih =>
    rw [keepFirst]
    split
    · next hkind =>
      dsimp only
      split
      · rw [ih, List.any_cons, hq n hkind, Bool.false_or]
      · rw [List.any_cons, List.any_cons, ih]
    · rw [List.any_cons, List.any_cons, ih]

theorem any_isContent_keepFirst (seen : List String) (nodes : List Node) :
    (keepFirst seen nodes).any isContent = nodes.any isContent :=
  any_keepFirst (fun n hkind => by simp [isContent, isBlock, hkind]) seen nodes

theorem shortens_keepLast :
    Shortens (fun kind nodes => if kind = .rule then keepLast nodes else nodes) :=
  Shortens.of_sublist keepLast_rule_sublist any_isContent_keepLast

theorem shortens_keepFirst :
    Shortens (fun kind nodes => if kind = .rule then keepFirst [] nodes else nodes) :=
  Shortens.of_sublist keepFirst_rule_sublist (any_isContent_keepFirst [])

theorem shortens_coalesce :
    Shortens (fun kind nodes =>
      if mergesIn kind then foldRules sameSelectors absorbBody nodes else nodes) :=
  shortens_foldRules absorbs_absorbBody (fun _ _ => noHollow_absorbBody) width_absorbBody_le

theorem shortens_mergeBodies :
    Shortens (fun kind nodes =>
      if mergesIn kind then foldRules sameDeclarations absorbSelectors nodes else nodes) :=
  shortens_foldRules absorbs_absorbSelectors (fun _ b ha _ => noHollow_absorbSelectors ha b)
    width_absorbSelectors_le

/-- The merging passes make no tree longer in which every rule has content. -/
theorem noLonger_mergeRules {n : Node} (h : NoHollow n) :
    NoLonger n.mergeRules.children n.children := by
  have hcoalesced : NoHollow n.coalesce := shortens_coalesce.noHollow_rebuild h
  have hlast : NoHollow n.coalesce.keepLastDeclarations :=
    shortens_keepLast.noHollow_rebuild hcoalesced
  have hmerged : NoHollow n.coalesce.keepLastDeclarations.mergeBodies :=
    shortens_mergeBodies.noHollow_rebuild hlast
  exact (shortens_keepFirst.noLonger_rebuild hmerged).trans
    ((shortens_mergeBodies.noLonger_rebuild hlast).trans
      ((shortens_keepLast.noLonger_rebuild hcoalesced).trans
        (shortens_coalesce.noLonger_rebuild h)))

theorem utf8ByteSize_serialize (layout : Layout) (tree : Node) :
    (serialize layout tree).utf8ByteSize =
      widthAll layout.minify 0 (flatten layout.removeComments tree) := by
  rw [widthAll_eq]
  exact Text.utf8ByteSize_ofList _

theorem NoLonger.serialize {tree' tree : Node} (h : NoLonger tree'.children tree.children)
    (layout : Layout) :
    (Sheet.serialize layout tree').utf8ByteSize ≤ (Sheet.serialize layout tree).utf8ByteSize := by
  rw [utf8ByteSize_serialize, utf8ByteSize_serialize]
  exact h layout.minify 0 layout.removeComments none none trivial

/-- **A higher level writes any tree in no more bytes than a lower one**, in any layout, and none
    writes it in more bytes than it takes as it is. -/
theorem utf8ByteSize_optimize_le (layout : Layout) (tree : Node) :
    (serialize layout (optimize .aggressive tree).1).utf8ByteSize ≤
        (serialize layout (optimize .advanced tree).1).utf8ByteSize ∧
      (serialize layout (optimize .advanced tree).1).utf8ByteSize ≤
        (serialize layout (optimize .basic tree).1).utf8ByteSize ∧
      (serialize layout (optimize .basic tree).1).utf8ByteSize ≤
        (serialize layout tree).utf8ByteSize := by
  cases hdefect : tree.defect? with
  | some defect =>
    have hsame : ∀ level, (optimize level tree).1 = tree := fun level => by
      unfold optimize
      rw [hdefect]
    rw [hsame, hsame, hsame]
    exact ⟨Nat.le_refl _, Nat.le_refl _, Nat.le_refl _⟩
  | none =>
    have hkind : tree.tidy.kind ≠ .rule := by
      rw [kind_tidy, kind_of_defect?_eq_none hdefect]
      decide
    have htidy : NoHollow tree.tidy := (allFilled_tidy tree).noHollow (fun h => absurd h hkind)
    have hlast : NoHollow tree.tidy.keepLastDeclarations := shortens_keepLast.noHollow_rebuild htidy
    rw [optimize_of_defect?_eq_none hdefect, optimize_of_defect?_eq_none hdefect,
      optimize_of_defect?_eq_none hdefect]
    exact ⟨(noLonger_mergeRules hlast).serialize layout,
      (shortens_keepLast.noLonger_rebuild htidy).serialize layout,
      (noLonger_tidy tree).serialize layout⟩

/-- Each level saves something on a rule that sets a property twice, a rule with the same
    declarations and a rule without any. -/
example :
    let tree := parse ".a\x7bx:1;x:2\x7d.b\x7bx:2\x7d.c\x7b\x7d"
    (serialize .compact tree).utf8ByteSize = 22 ∧
      (serialize .compact (optimize .basic tree).1).utf8ByteSize = 18 ∧
      (serialize .compact (optimize .advanced tree).1).utf8ByteSize = 14 ∧
      (serialize .compact (optimize .aggressive tree).1).utf8ByteSize = 10 := by
  decide +kernel

/-- **Optimization never makes the output longer.** Whatever the template, the values put into it,
    the functions and the layout: the higher the level, the fewer bytes are written, or as many, and
    never more than without optimization. -/
theorem serialize_optimize_le (template : String) (context tokens : TokenSet)
    (functions : Functions) (layout : Layout) :
    let tree := (Style.substitute context tokens functions (parse template)).1
    (serialize layout (optimize .aggressive tree).1).utf8ByteSize ≤
        (serialize layout (optimize .advanced tree).1).utf8ByteSize ∧
      (serialize layout (optimize .advanced tree).1).utf8ByteSize ≤
        (serialize layout (optimize .basic tree).1).utf8ByteSize ∧
      (serialize layout (optimize .basic tree).1).utf8ByteSize ≤
        (serialize layout tree).utf8ByteSize :=
  utf8ByteSize_optimize_le layout _

end Theming.Sheet
