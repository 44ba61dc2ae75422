import Theming.Proofs.Sheet.Grouping
import Theming.Proofs.Sheet.Values

set_option autoImplicit false

/-! # Moving rules

The aggressive level gathers the bodies of sibling rules with the same selectors, then the selectors
of sibling rules with the same declarations. Both passes put what a rule says in the place of the
first rule that it is merged with. `Node.gathered` makes that move and nothing else: it reorders
siblings (`gatherRules_perm`) and merges none.

Which siblings belong together is decided on the list as it is, without running the passes
(`groupsOf`). Passes change rules from the inside while that is decided, and the decision does not
see it (`gatherRules_map`). -/

namespace Theming.Sheet

open Node

/-! ## Gathering bodies -/

/-- Whether two sibling rules are gathered for their selectors: both are flat, and their selectors
    are the same. -/
def sameRule (a b : Node) : Bool := takes sameSelectors a b

theorem sameRule_iff {a b : Node} :
    sameRule a b = true ↔ a.isFlatRule = true ∧ b.isFlatRule = true ∧
      selectorTexts a.children = selectorTexts b.children := by
  rw [sameRule, takes_iff, sameSelectors, beq_iff_eq]

theorem children_withChildren (n : Node) (nodes : List Node) :
    (n.withChildren nodes).children = nodes := by
  cases n; rfl

theorem kind_withChildren (n : Node) (nodes : List Node) :
    (n.withChildren nodes).kind = n.kind := by
  cases n; rfl

theorem children_absorbBody (a b : Node) :
    (absorbBody a b).children = a.children ++ b.children.filter (fun m => m.kind ≠ .selector) :=
  children_withChildren _ _

theorem selectorTexts_append (x y : List Node) :
    selectorTexts (x ++ y) = selectorTexts x ++ selectorTexts y := by
  simp only [selectorTexts, List.filter_append, List.map_append]

theorem selectorTexts_absorbBody (a b : Node) :
    selectorTexts (absorbBody a b).children = selectorTexts a.children := by
  rw [children_absorbBody, selectorTexts_append]
  have hnone : selectorTexts (b.children.filter (fun m => m.kind ≠ .selector)) = [] := by
    unfold selectorTexts
    rw [List.filter_filter, List.filter_eq_nil_iff.2 (fun m _ => by simp)]
    rfl
  rw [hnone, List.append_nil]

theorem isFlatRule_absorbBody {a b : Node} (ha : a.isFlatRule = true) (hb : b.isFlatRule = true) :
    (absorbBody a b).isFlatRule = true := by
  rw [isFlatRule_iff] at ha hb ⊢
  refine ⟨(kind_withChildren _ _).trans ha.1, ?_⟩
  intro m hm
  rw [children_absorbBody] at hm
  rcases List.mem_append.1 hm with hm | hm
  · exact ha.2 m hm
  · exact hb.2 m (List.mem_filter.1 hm).1

theorem absorbs_absorbBody : Absorbs sameSelectors absorbBody where
  flat a b h := by
    obtain ⟨ha, hb, _⟩ := sameRule_iff.1 h
    exact isFlatRule_absorbBody ha hb
  alike a b c _ := by simp only [sameSelectors, selectorTexts_absorbBody]

/-- The rule that a group of rules with the same selectors comes to, before repeated declarations
    are dropped. -/
def joinedRule (g : Node × List Node) : Node := g.2.foldl absorbBody g.1

/-- What the rules of a group say stays together in the rule that they come to. -/
theorem joinedRule_spec (a : Node) (rest : List Node) (ha : a.isFlatRule = true)
    (hrest : ∀ b ∈ rest, b.isFlatRule = true) :
    (joinedRule (a, rest)).isFlatRule = true ∧
      selectorTexts (joinedRule (a, rest)).children = selectorTexts a.children ∧
      ∀ property, lastAssigned property (joinedRule (a, rest)).children =
        lastAssigned property ((a :: rest).flatMap Node.children) := by
  induction rest generalizing a with
  | nil => simp [joinedRule, ha]
  | cons b rest ih =>
    have hb : b.isFlatRule = true := hrest b List.mem_cons_self
    obtain ⟨hflat, hselectors, hassigned⟩ :=
      ih (absorbBody a b) (isFlatRule_absorbBody ha hb)
        (fun c hc => hrest c (List.mem_cons_of_mem _ hc))
    refine ⟨hflat, hselectors.trans (selectorTexts_absorbBody a b), ?_⟩
    intro property
    have hdrop : lastAssigned property (b.children.filter (fun m => m.kind ≠ .selector)) =
        lastAssigned property b.children :=
      lastAssigned_filter property _ _ (fun n hn => by simp [hn])
    refine (hassigned property).trans ?_
    rw [List.flatMap_cons, List.flatMap_cons, List.flatMap_cons, children_absorbBody]
    simp only [lastAssigned_append, hdrop, Option.or_assoc]

/-- The rule that a group of rules with the same selectors comes to. -/
def gatheredRule (g : Node × List Node) : Node :=
  (joinedRule g).withChildren (keepLast (joinedRule g).children)

/-- Whether two groups of rules are gathered for their declarations: the rules that they come to
    declare the same. -/
def sameGathered (g h : Node × List Node) : Bool :=
  takes sameDeclarations (gatheredRule g) (gatheredRule h)

/-- Sibling nodes with every flat rule moved behind the first one that it is merged with. -/
def gatherRules (nodes : List Node) : List Node :=
  (gather sameGathered (gather sameRule nodes)).flatMap (fun gg => (members gg).flatMap members)

theorem gatherRules_perm (nodes : List Node) : (gatherRules nodes).Perm nodes := by
  unfold gatherRules
  rw [← List.flatMap_assoc]
  exact ((gather_perm sameGathered _).flatMap_right members).trans (gather_perm sameRule nodes)

/-- The tree with every flat rule moved behind the first sibling that it is merged with. Nothing is
    merged or dropped. -/
def Node.gathered (n : Node) : Node :=
  n.rebuild (fun kind children => if mergesIn kind then gatherRules children else children)

/-! ## Changes inside rules -/

theorem any_isBlock_keepLast (nodes : List Node) :
    (keepLast nodes).any isBlock = nodes.any isBlock := by
  induction nodes with
  | nil => rfl
  | cons n rest ih =>
    rw [keepLast]
    split
    · next h =>
      obtain ⟨m, _, hsame⟩ := List.any_eq_true.1 h
      have hkind := (setsProperty_iff.1 (setsSame_iff.1 hsame).1).1
      rw [ih, List.any_cons, isBlock, hkind]
      rfl
    · rw [List.any_cons, List.any_cons, ih]

/-- A change that reaches a rule by changing its children one by one. -/
structure MapsRules (F : Node → Node) : Prop where
  head : KeepsHead F
  children : ∀ n, n.kind = .rule → (F n).children = n.children.map F

theorem mapsRules_rebuild {f : Kind → List Node → List Node} (hf : ∀ nodes, f .rule nodes = nodes) :
    MapsRules (rebuild f) where
  head := keepsHead_rebuild f
  children n hn := by rw [children_rebuild, hn, hf]

theorem node_ext {a b : Node} (hkind : a.kind = b.kind) (hproperties : a.properties = b.properties)
    (hchildren : a.children = b.children) : a = b := by
  obtain ⟨kind, properties, children⟩ := a
  obtain ⟨kind', properties', children'⟩ := b
  simp only [kind_mk, properties_mk, children_mk] at hkind hproperties hchildren
  rw [hkind, hproperties, hchildren]

theorem properties_withChildren (n : Node) (nodes : List Node) :
    (n.withChildren nodes).properties = n.properties := by
  cases n; rfl

namespace MapsRules

variable {F : Node → Node}

theorem isFlatRule (hF : MapsRules F) (n : Node) : (F n).isFlatRule = n.isFlatRule := by
  unfold Node.isFlatRule
  rw [hF.head.kind]
  by_cases hn : n.kind = .rule
  · rw [hF.children n hn, hF.head.any_isBlock_map]
  · simp [hn]

theorem sameRule (hF : MapsRules F) (a b : Node) :
    Sheet.sameRule (F a) (F b) = Sheet.sameRule a b := by
  rw [Bool.eq_iff_iff, sameRule_iff, sameRule_iff, hF.isFlatRule, hF.isFlatRule]
  constructor
  · rintro ⟨ha, hb, h⟩
    rw [hF.children a (isFlatRule_iff.1 ha).1, hF.children b (isFlatRule_iff.1 hb).1,
      hF.head.selectorTexts_map, hF.head.selectorTexts_map] at h
    exact ⟨ha, hb, h⟩
  · rintro ⟨ha, hb, h⟩
    rw [hF.children a (isFlatRule_iff.1 ha).1, hF.children b (isFlatRule_iff.1 hb).1,
      hF.head.selectorTexts_map, hF.head.selectorTexts_map]
    exact ⟨ha, hb, h⟩

theorem absorbBody (hF : MapsRules F) {a b : Node} (ha : a.kind = .rule) (hb : b.kind = .rule) :
    Node.absorbBody (F a) (F b) = F (Node.absorbBody a b) := by
  have hkind : (Node.absorbBody a b).kind = .rule := (kind_withChildren _ _).trans ha
  apply node_ext
  · rw [hF.head.kind, hkind]
    exact (kind_withChildren _ _).trans ((hF.head.kind a).trans ha)
  · rw [(hF.head _).2]
    exact (properties_withChildren _ _).trans
      ((hF.head a).2.trans (properties_withChildren a _).symm)
  · rw [hF.children _ hkind, children_absorbBody, children_absorbBody, hF.children a ha,
      hF.children b hb, List.map_append, List.filter_map]
    simp only [Function.comp_def, hF.head.kind]

theorem joinedRule (hF : MapsRules F) (a : Node) (rest : List Node) (ha : a.isFlatRule = true)
    (hrest : ∀ b ∈ rest, b.isFlatRule = true) :
    Sheet.joinedRule (F a, rest.map F) = F (Sheet.joinedRule (a, rest)) := by
  induction rest generalizing a with
  | nil => rfl
  | cons b rest ih =>
    have hb : b.isFlatRule = true := hrest b List.mem_cons_self
    have hstep := ih (Node.absorbBody a b) (isFlatRule_absorbBody ha hb)
      (fun c hc => hrest c (List.mem_cons_of_mem _ hc))
    rw [← hF.absorbBody (isFlatRule_iff.1 ha).1 (isFlatRule_iff.1 hb).1] at hstep
    exact hstep

end MapsRules

/-! ## Groups of siblings -/

/-- A group as `gather` makes it for the selectors: a flat rule with others like it, or a single
    node of another form. -/
def IsGroup (g : Node × List Node) : Prop := ∀ b ∈ g.2, sameRule g.1 b = true

theorem isGroup_of_mem {nodes : List Node} {g : Node × List Node}
    (hg : g ∈ gather sameRule nodes) : IsGroup g :=
  alike_of_mem_gather hg

namespace IsGroup

variable {g : Node × List Node}

theorem flat (hg : IsGroup g) : ∀ b ∈ g.2, b.isFlatRule = true := fun b hb =>
  (sameRule_iff.1 (hg b hb)).2.1

theorem eq_nil (hg : IsGroup g) (h : g.1.isFlatRule = false) : g.2 = [] := by
  apply List.eq_nil_iff_forall_not_mem.2
  intro b hb
  have := (sameRule_iff.1 (hg b hb)).1
  rw [h] at this
  cases this

theorem joinedRule_eq (hg : IsGroup g) (h : g.1.isFlatRule = false) : joinedRule g = g.1 := by
  unfold joinedRule
  rw [hg.eq_nil h]
  rfl

theorem joinedRule_map {F : Node → Node} (hF : MapsRules F) (hg : IsGroup g) :
    joinedRule (F g.1, g.2.map F) = F (joinedRule g) := by
  cases h : g.1.isFlatRule with
  | true => exact hF.joinedRule g.1 g.2 h hg.flat
  | false =>
    rw [hg.joinedRule_eq h]
    unfold joinedRule
    rw [hg.eq_nil h]
    rfl

end IsGroup

/-! ## The merging passes as one -/

/-- The tree after bodies were gathered, repeated declarations dropped and selectors gathered. -/
def Node.merged (n : Node) : Node := n.coalesce.keepLastDeclarations.mergeBodies

theorem mapsRules_coalesce : MapsRules coalesce := mapsRules_rebuild (fun _ => rfl)

theorem mapsRules_mergeBodies : MapsRules mergeBodies := mapsRules_rebuild (fun _ => rfl)

theorem mapsRules_gathered : MapsRules gathered := mapsRules_rebuild (fun _ => rfl)

theorem keepsHead_keepLastDeclarations : KeepsHead keepLastDeclarations := keepsHead_rebuild _

theorem keepsHead_merged : KeepsHead merged :=
  mapsRules_mergeBodies.head.comp
    (keepsHead_keepLastDeclarations.comp mapsRules_coalesce.head)

/-- Inside a rule, all that the merging passes do is to drop repeated declarations. -/
theorem children_merged_rule {n : Node} (hn : n.kind = .rule) :
    n.merged.children = (keepLast n.children).map merged := by
  have hkind : n.coalesce.keepLastDeclarations.kind = .rule := by
    rw [keepsHead_keepLastDeclarations.kind, mapsRules_coalesce.head.kind, hn]
  have hlast : n.coalesce.keepLastDeclarations.children =
      keepLast (n.coalesce.children.map keepLastDeclarations) := by
    unfold keepLastDeclarations
    rw [children_rebuild, mapsRules_coalesce.head.kind, hn]
    rfl
  unfold merged
  rw [mapsRules_mergeBodies.children _ hkind, hlast, mapsRules_coalesce.children n hn,
    keepsHead_keepLastDeclarations.keepLast_map, mapsRules_coalesce.head.keepLast_map,
    List.map_map, List.map_map]
  rfl

/-- What the merging passes make of the children of a root or a condition block. -/
def mergedList (nodes : List Node) : List Node :=
  foldRules sameDeclarations absorbSelectors
    ((foldRules sameSelectors absorbBody (nodes.map coalesce)).map
      (fun n => n.keepLastDeclarations.mergeBodies))

theorem children_merged_container {n : Node} (hn : mergesIn n.kind = true) :
    n.merged.children = mergedList n.children := by
  have hrule : n.kind ≠ .rule := by
    intro h
    rw [h] at hn
    cases hn
  -- One pass after the other, each of which keeps the kind of the node.
  have hcoalesce : n.coalesce.children =
      foldRules sameSelectors absorbBody (n.children.map coalesce) := by
    conv => lhs; unfold coalesce
    rw [children_rebuild, hn]
    rfl
  have hlast : n.coalesce.keepLastDeclarations.children =
      n.coalesce.children.map keepLastDeclarations := by
    conv => lhs; unfold keepLastDeclarations
    rw [children_rebuild, mapsRules_coalesce.head.kind, if_neg hrule]
    rfl
  have hmerge : n.coalesce.keepLastDeclarations.mergeBodies.children =
      foldRules sameDeclarations absorbSelectors
        (n.coalesce.keepLastDeclarations.children.map mergeBodies) := by
    conv => lhs; unfold mergeBodies
    rw [children_rebuild, keepsHead_keepLastDeclarations.kind, mapsRules_coalesce.head.kind, hn]
    rfl
  unfold merged mergedList
  rw [hmerge, hlast, hcoalesce, List.map_map]
  rfl

/-! ## Which rules are merged -/

/-- Two nodes are both no flat rules, or both flat rules with the same declarations. -/
def SameDeclared (a b : Node) : Prop :=
  a.isFlatRule = b.isFlatRule ∧
    (a.isFlatRule = true → declarationPairs a.children = declarationPairs b.children)

theorem takes_sameDeclarations_congr {a a' b b' : Node} (ha : SameDeclared a a')
    (hb : SameDeclared b b') : takes sameDeclarations a b = takes sameDeclarations a' b' := by
  unfold takes
  rw [← ha.1, ← hb.1]
  cases hfa : a.isFlatRule with
  | false => rfl
  | true =>
    cases hfb : b.isFlatRule with
    | false => rfl
    | true =>
      have hpa := ha.2 hfa
      have hpb := hb.2 hfb
      simp only [sameDeclarations, hpa, hpb]

theorem isFlatRule_eq {n : Node} (hn : n.kind = .rule) :
    n.isFlatRule = !n.children.any isBlock := by
  simp [isFlatRule, hn]

theorem isFlatRule_of_kind_ne {n : Node} (hn : n.kind ≠ .rule) : n.isFlatRule = false := by
  simp [isFlatRule, hn]

theorem sameDeclared_merged (n : Node) :
    SameDeclared n.merged (n.withChildren (keepLast n.children)) := by
  by_cases hn : n.kind = .rule
  · have hm : n.merged.kind = .rule := (keepsHead_merged.kind n).trans hn
    have hw : (n.withChildren (keepLast n.children)).kind = .rule :=
      (kind_withChildren _ _).trans hn
    constructor
    · rw [isFlatRule_eq hm, isFlatRule_eq hw, children_merged_rule hn, children_withChildren,
        keepsHead_merged.any_isBlock_map]
    · intro _
      rw [children_merged_rule hn, children_withChildren, keepsHead_merged.declarationPairs_map]
  · have hm : n.merged.isFlatRule = false :=
      isFlatRule_of_kind_ne (by rw [keepsHead_merged.kind]; exact hn)
    have hw : (n.withChildren (keepLast n.children)).isFlatRule = false :=
      isFlatRule_of_kind_ne (by rw [kind_withChildren]; exact hn)
    exact ⟨hm.trans hw.symm, fun h => by rw [hm] at h; cases h⟩

theorem sameDeclared_map {F : Node → Node} (hF : MapsRules F) (n : Node) :
    SameDeclared ((F n).withChildren (keepLast (F n).children))
      (n.withChildren (keepLast n.children)) := by
  by_cases hn : n.kind = .rule
  · have hm : ((F n).withChildren (keepLast (F n).children)).kind = .rule :=
      (kind_withChildren _ _).trans ((hF.head.kind n).trans hn)
    have hw : (n.withChildren (keepLast n.children)).kind = .rule :=
      (kind_withChildren _ _).trans hn
    constructor
    · rw [isFlatRule_eq hm, isFlatRule_eq hw, children_withChildren, children_withChildren,
        hF.children n hn, hF.head.keepLast_map, hF.head.any_isBlock_map]
    · intro _
      rw [children_withChildren, children_withChildren, hF.children n hn, hF.head.keepLast_map,
        hF.head.declarationPairs_map]
  · have hm : ((F n).withChildren (keepLast (F n).children)).isFlatRule = false :=
      isFlatRule_of_kind_ne (by rw [kind_withChildren, hF.head.kind]; exact hn)
    have hw : (n.withChildren (keepLast n.children)).isFlatRule = false :=
      isFlatRule_of_kind_ne (by rw [kind_withChildren]; exact hn)
    exact ⟨hm.trans hw.symm, fun h => by rw [hm] at h; cases h⟩

/-- The groups of siblings that are merged, each with its groups of rules of the same selectors. -/
def groupsOf (nodes : List Node) : List ((Node × List Node) × List (Node × List Node)) :=
  gather sameGathered (gather sameRule nodes)

theorem gather_sameRule_map {F : Node → Node} (hF : MapsRules F) (nodes : List Node) :
    gather sameRule (nodes.map F) =
      (gather sameRule nodes).map (fun g => (F g.1, g.2.map F)) := by
  rw [gather_map]
  congr 1
  exact gather_congr (fun a _ b _ => hF.sameRule a b)

/-- Moving rules has the same effect before and after a change inside of them. -/
theorem gatherRules_map {F : Node → Node} (hF : MapsRules F) (nodes : List Node) :
    gatherRules (nodes.map F) =
      (groupsOf nodes).flatMap (fun gg => (members gg).flatMap (fun g => (members g).map F)) := by
  unfold gatherRules groupsOf
  rw [gather_sameRule_map hF, gather_map]
  have hcongr : gather (fun g h : Node × List Node =>
      sameGathered (F g.1, g.2.map F) (F h.1, h.2.map F)) (gather sameRule nodes) =
      gather sameGathered (gather sameRule nodes) := by
    apply gather_congr
    intro g hg h hh
    unfold sameGathered gatheredRule
    rw [(isGroup_of_mem hg).joinedRule_map hF, (isGroup_of_mem hh).joinedRule_map hF]
    exact takes_sameDeclarations_congr (sameDeclared_map hF _) (sameDeclared_map hF _)
  rw [hcongr, List.flatMap_map]
  congr 1
  funext gg
  simp only [members, List.flatMap_cons, List.flatMap_map, List.map_cons]

end Theming.Sheet
