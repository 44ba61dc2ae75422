import Theming.Proofs.Sheet.Moving
import Theming.Proofs.Sheet.Selectors
import Theming.Proofs.Sheet.Shape

set_option autoImplicit false

/-! # Merging rules is moving them

`sameValues_mergeRules` says that moving rules (`Node.gathered`) is all that the merging passes do
to the values of a stylesheet: the rule that a group is merged into says what the rules of the group
say one after the other. A declaration that is moved in front of another one of the same property no
longer overrides it, so the aggressive level keeps a value exactly where reordering keeps it
(`lastValue_optimize_aggressive_iff`). -/

namespace Theming.Sheet

open Node

/-! ## Gathering selectors -/

theorem declarationPairs_append (x y : List Node) :
    declarationPairs (x ++ y) = declarationPairs x ++ declarationPairs y := by
  simp only [declarationPairs, List.filter_append, List.map_append]

theorem declarationPairs_eq_nil {nodes : List Node} (h : ∀ m ∈ nodes, m.kind ≠ .declaration) :
    declarationPairs nodes = [] := by
  unfold declarationPairs
  rw [List.filter_eq_nil_iff.2 (fun m hm => by simpa using h m hm)]
  rfl

theorem declarationPairs_filter (q : Node → Bool) (nodes : List Node)
    (hq : ∀ n, n.kind = .declaration → q n = true) :
    declarationPairs (nodes.filter q) = declarationPairs nodes := by
  unfold declarationPairs
  rw [List.filter_filter]
  congr 1
  apply List.filter_congr
  intro n _
  by_cases hk : n.kind = .declaration
  · simp [hk, hq n hk]
  · simp [hk]

/-- The selectors that a rule gets from another one. -/
def newSelectors (a b : Node) : List Node :=
  ((selectorTexts b.children).filter
    (fun text => !(selectorTexts a.children).contains text)).map selector

theorem children_absorbSelectors (a b : Node) :
    (absorbSelectors a b).children =
      a.children.filter (fun m => m.kind = .selector) ++ newSelectors a b ++
        a.children.filter (fun m => m.kind ≠ .selector) :=
  children_withChildren _ _

theorem kind_of_mem_newSelectors {a b m : Node} (hm : m ∈ newSelectors a b) :
    m.kind = .selector := by
  obtain ⟨text, _, rfl⟩ := List.mem_map.1 hm
  rfl

theorem declarationPairs_absorbSelectors (a b : Node) :
    declarationPairs (absorbSelectors a b).children = declarationPairs a.children := by
  rw [children_absorbSelectors, declarationPairs_append, declarationPairs_append,
    declarationPairs_eq_nil, declarationPairs_eq_nil, List.nil_append, List.nil_append]
  · exact declarationPairs_filter _ _ (fun n hn => by simp [hn])
  · intro m hm
    rw [kind_of_mem_newSelectors hm]
    decide
  · intro m hm
    have := (List.mem_filter.1 hm).2
    simp only [decide_eq_true_eq] at this
    rw [this]
    decide

theorem isFlatRule_absorbSelectors {a : Node} (ha : a.isFlatRule = true) (b : Node) :
    (absorbSelectors a b).isFlatRule = true := by
  rw [isFlatRule_iff] at ha ⊢
  refine ⟨(kind_withChildren _ _).trans ha.1, ?_⟩
  intro m hm
  rw [children_absorbSelectors] at hm
  rcases List.mem_append.1 hm with hm | hm
  · rcases List.mem_append.1 hm with hm | hm
    · exact ha.2 m (List.mem_filter.1 hm).1
    · simp [isBlock, kind_of_mem_newSelectors hm]
  · exact ha.2 m (List.mem_filter.1 hm).1

theorem absorbs_absorbSelectors : Absorbs sameDeclarations absorbSelectors where
  flat a b h := isFlatRule_absorbSelectors (takes_iff.1 h).1 b
  alike a b c _ := by simp only [sameDeclarations, declarationPairs_absorbSelectors]

theorem lastAssigned_absorbSelectors (property : String) (a b : Node) :
    lastAssigned property (absorbSelectors a b).children = lastAssigned property a.children := by
  have hselectors : ∀ m ∈ a.children.filter (fun m => m.kind = .selector),
      m.kind ≠ .declaration := by
    intro m hm
    have := (List.mem_filter.1 hm).2
    simp only [decide_eq_true_eq] at this
    rw [this]
    decide
  have hnew : ∀ m ∈ newSelectors a b, m.kind ≠ .declaration := by
    intro m hm
    rw [kind_of_mem_newSelectors hm]
    decide
  rw [children_absorbSelectors, lastAssigned_append, lastAssigned_append,
    lastAssigned_eq_none hselectors, lastAssigned_eq_none hnew]
  simp only [Option.or_none]
  exact lastAssigned_filter property _ _ (fun n hn => by simp [hn])

theorem selectorTexts_map_selector (texts : List String) :
    selectorTexts (texts.map selector) = texts := by
  induction texts with
  | nil => rfl
  | cons text rest ih =>
    have hcons : selectorTexts ((text :: rest).map selector) =
        text :: selectorTexts (rest.map selector) := rfl
    rw [hcons, ih]

/-- The selectors of the first rule, and behind them those of the other one that are new. -/
theorem selectorTexts_absorbSelectors (a b : Node) :
    selectorTexts (absorbSelectors a b).children =
      selectorTexts a.children ++ (selectorTexts b.children).filter
        (fun text => !(selectorTexts a.children).contains text) := by
  have hnew : selectorTexts (newSelectors a b) =
      (selectorTexts b.children).filter
        (fun text => !(selectorTexts a.children).contains text) :=
    selectorTexts_map_selector _
  have hown : selectorTexts (a.children.filter (fun m => m.kind = .selector)) =
      selectorTexts a.children := selectorTexts_filter _ _ (fun n hn => by simp [hn])
  have hrest : selectorTexts (a.children.filter (fun m => m.kind ≠ .selector)) = [] := by
    unfold selectorTexts
    rw [List.filter_filter, List.filter_eq_nil_iff.2 (fun m _ => by simp)]
    rfl
  rw [children_absorbSelectors, selectorTexts_append, selectorTexts_append, hnew, hown, hrest,
    List.append_nil]

theorem mem_selectorTexts_absorbSelectors (s : String) (a b : Node) :
    s ∈ selectorTexts (absorbSelectors a b).children ↔
      s ∈ selectorTexts a.children ∨ s ∈ selectorTexts b.children := by
  rw [selectorTexts_absorbSelectors, List.mem_append, List.mem_filter]
  by_cases hs : s ∈ selectorTexts a.children <;> simp [hs]

/-- The rule that rules with the same declarations are gathered in. -/
theorem foldl_absorbSelectors_spec (rest : List Node) (a : Node) (ha : a.isFlatRule = true) :
    (rest.foldl absorbSelectors a).isFlatRule = true ∧
      (∀ property, lastAssigned property (rest.foldl absorbSelectors a).children =
        lastAssigned property a.children) ∧
      ∀ s, s ∈ selectorTexts (rest.foldl absorbSelectors a).children ↔
        ∃ n ∈ a :: rest, s ∈ selectorTexts n.children := by
  induction rest generalizing a with
  | nil => simp [ha]
  | cons b rest ih =>
    obtain ⟨hflat, hassigned, hselectors⟩ :=
      ih (absorbSelectors a b) (isFlatRule_absorbSelectors ha b)
    refine ⟨hflat, ?_, ?_⟩
    · intro property
      exact (hassigned property).trans (lastAssigned_absorbSelectors property a b)
    · intro s
      rw [List.foldl_cons, hselectors s]
      simp only [List.mem_cons, exists_eq_or_imp, mem_selectorTexts_absorbSelectors, or_assoc]

/-! ## Groups after merging and after moving -/

/-- The rule that a group of rules with the same selectors is merged into. -/
def groupRule (g : Node × List Node) : Node := (joinedRule g).merged

/-- The rule that groups of rules with the same declarations are merged into. -/
def mergedGroup (gg : (Node × List Node) × List (Node × List Node)) : Node :=
  (gg.2.map groupRule).foldl absorbSelectors (groupRule gg.1)

/-- The nodes of such groups after the move. -/
def movedGroup (gg : (Node × List Node) × List (Node × List Node)) : List Node :=
  (members gg).flatMap (fun g => (members g).map gathered)

theorem mergedList_eq (nodes : List Node) : mergedList nodes = (groupsOf nodes).map mergedGroup := by
  have hfirst : foldRules sameSelectors absorbBody (nodes.map coalesce) =
      (gather sameRule nodes).map (fun g => (joinedRule g).coalesce) := by
    rw [foldRules_eq absorbs_absorbBody]
    show (gather sameRule (nodes.map coalesce)).map joinedRule = _
    rw [gather_sameRule_map mapsRules_coalesce, List.map_map]
    apply List.map_congr_left
    intro g hg
    exact (isGroup_of_mem hg).joinedRule_map mapsRules_coalesce
  have hgroups : ((gather sameRule nodes).map (fun g => (joinedRule g).coalesce)).map
      (fun n => n.keepLastDeclarations.mergeBodies) = (gather sameRule nodes).map groupRule := by
    rw [List.map_map]
    rfl
  unfold mergedList groupsOf
  rw [hfirst, hgroups, foldRules_eq absorbs_absorbSelectors, gather_map, List.map_map]
  have hcongr : gather (fun g h => takes sameDeclarations (groupRule g) (groupRule h))
      (gather sameRule nodes) = gather sameGathered (gather sameRule nodes) :=
    gather_congr (fun g _ h _ =>
      takes_sameDeclarations_congr (sameDeclared_merged (joinedRule g))
        (sameDeclared_merged (joinedRule h)))
  rw [hcongr]
  rfl

/-! ## What a merged group says -/

theorem lastAssigned_keepLast {property : String} (hp : Text.headIs '@' property = false)
    {nodes : List Node} (hset : ∀ m ∈ nodes, m.setsNothing = false) :
    lastAssigned property (keepLast nodes) = lastAssigned property nodes := by
  have h := (sameMeaning_keepLast [] none nodes hset).lastValue [] none property hp
  rw [lastValue_ownSettings, lastValue_ownSettings] at h
  simpa [covers] using h

theorem lastAssigned_singleton (property : String) (n : Node) :
    lastAssigned property [n] = if n.assigns property then some (n.prop valueKey) else none := by
  unfold lastAssigned
  rw [List.filter_cons]
  split <;> rfl

theorem declarationPairs_singleton (n : Node) :
    declarationPairs [n] =
      if n.kind = .declaration then [(n.prop propertyKey, n.prop valueKey)] else [] := by
  unfold declarationPairs
  rw [List.filter_cons]
  by_cases hkind : n.kind = .declaration
  · rw [if_pos hkind, if_pos (decide_eq_true hkind)]
    rfl
  · rw [if_neg hkind, if_neg (by simpa using hkind)]
    rfl

/-- What sets a property again comes from a node that sets it to something. -/
theorem setsSame_of_assigns {property : String} (hp : Text.headIs '@' property = false)
    {n m : Node} (hn : n.setsProperty = true) (hprop : n.prop propertyKey = property)
    (hm : m.assigns property = true) : n.setsSame m = true := by
  simp only [assigns, Bool.and_eq_true, decide_eq_true_eq, beq_iff_eq] at hm
  refine setsSame_iff.2 ⟨hn, ?_, ?_⟩
  · exact setsProperty_iff.2 ⟨hm.1.1, by rw [hm.1.2]; exact hp⟩
  · rw [hprop, hm.1.2]

/-- Where no property is set twice, its last value is its only one. -/
theorem lastAssigned_keepLast_eq_some_iff {property : String}
    (hp : Text.headIs '@' property = false) {nodes : List Node}
    (hset : ∀ m ∈ nodes, m.setsNothing = false) (value : String) :
    lastAssigned property (keepLast nodes) = some value ↔
      (property, value) ∈ declarationPairs (keepLast nodes) := by
  induction nodes with
  | nil => simp [keepLast, lastAssigned, declarationPairs]
  | cons n rest ih =>
    have ih := ih (fun m hm => hset m (List.mem_cons_of_mem _ hm))
    rw [keepLast]
    by_cases hany : rest.any n.setsSame = true
    · rw [if_pos hany]
      exact ih
    · have hpairs : declarationPairs (n :: keepLast rest) =
          declarationPairs [n] ++ declarationPairs (keepLast rest) :=
        declarationPairs_append [n] (keepLast rest)
      rw [if_neg hany, lastAssigned_cons, hpairs, List.mem_append, lastAssigned_singleton,
        declarationPairs_singleton]
      by_cases hn : n.kind = .declaration ∧ n.prop propertyKey = property
      · obtain ⟨hkind, hprop⟩ := hn
        have hsets : n.setsProperty = true := setsProperty_iff.2 ⟨hkind, by rw [hprop]; exact hp⟩
        have hvalue : Text.allBlank (n.prop valueKey) = false := by
          have hnothing := hset n List.mem_cons_self
          simpa [setsNothing, hsets] using hnothing
        have hassigns : n.assigns property = true := by simp [assigns, hkind, hprop, hvalue]
        -- What sets the property again would have made `n` go.
        have hno : (keepLast rest).filter (assigns property) = [] := by
          apply List.filter_eq_nil_iff.2
          intro m hm hagain
          exact hany (List.any_eq_true.2 ⟨m, (keepLast_sublist rest).subset hm,
            setsSame_of_assigns hp hsets hprop hagain⟩)
        have hnone : lastAssigned property (keepLast rest) = none := by
          unfold lastAssigned
          rw [hno]
          rfl
        have hnot : ¬ (property, value) ∈ declarationPairs (keepLast rest) := by
          rw [← ih, hnone]
          simp
        rw [hnone, Option.none_or, if_pos hassigns, if_pos hkind, hprop]
        simp only [Option.some.injEq, List.mem_singleton, Prod.mk.injEq, true_and, hnot, or_false]
        exact eq_comm
      · -- The node says nothing about the property.
        have hassigns : ¬ n.assigns property = true := by
          intro hassigns
          simp only [assigns, Bool.and_eq_true, decide_eq_true_eq, beq_iff_eq] at hassigns
          exact hn hassigns.1
        have hnot : ¬ (property, value) ∈
            (if n.kind = .declaration then [(n.prop propertyKey, n.prop valueKey)] else []) := by
          intro hmem
          split at hmem
          · next hkind =>
            rw [List.mem_singleton, Prod.mk.injEq] at hmem
            exact hn ⟨hkind, hmem.1.symm⟩
          · cases hmem
        rw [if_neg hassigns, Option.or_none, ih]
        simp only [hnot, false_or]

theorem mem_children_joinedRule {g : Node × List Node} {m : Node}
    (hm : m ∈ (joinedRule g).children) : ∃ n ∈ members g, m ∈ n.children := by
  obtain ⟨a, rest⟩ := g
  induction rest generalizing a with
  | nil => exact ⟨a, List.mem_cons_self, hm⟩
  | cons b rest ih =>
    obtain ⟨n, hn, hmn⟩ := ih (absorbBody a b) hm
    rcases List.mem_cons.1 hn with rfl | hn
    · rw [children_absorbBody] at hmn
      rcases List.mem_append.1 hmn with h | h
      · exact ⟨a, List.mem_cons_self, h⟩
      · exact ⟨b, List.mem_cons_of_mem _ List.mem_cons_self, (List.mem_filter.1 h).1⟩
    · exact ⟨n, List.mem_cons_of_mem _ (List.mem_cons_of_mem _ hn), hmn⟩

/-- A group of flat rules with the same selectors comes to one flat rule that says the same. -/
theorem groupRule_spec {g : Node × List Node} (hg : IsGroup g) (hflat : g.1.isFlatRule = true)
    (hset : ∀ n ∈ members g, AllSet n) :
    (groupRule g).isFlatRule = true ∧
      selectorTexts (groupRule g).children = selectorTexts g.1.children ∧
      ∀ property, Text.headIs '@' property = false →
        lastAssigned property (groupRule g).children =
            lastAssigned property (gatheredRule g).children ∧
          lastAssigned property (gatheredRule g).children =
            lastAssigned property ((members g).flatMap children) := by
  obtain ⟨hjflat, hjselectors, hjassigned⟩ := joinedRule_spec g.1 g.2 hflat hg.flat
  have hkind : (joinedRule g).kind = .rule := (isFlatRule_iff.1 hjflat).1
  have hjset : ∀ m ∈ (joinedRule g).children, m.setsNothing = false := by
    intro m hm
    obtain ⟨n, hn, hmn⟩ := mem_children_joinedRule hm
    exact ((allSet_iff n).1 (hset n hn) m hmn).1
  -- Merging does nothing more to a flat rule than to keep the last declarations.
  have hchildren : (groupRule g).children = (keepLast (joinedRule g).children).map merged :=
    children_merged_rule hkind
  refine ⟨?_, ?_, ?_⟩
  · have hgkind : (groupRule g).kind = .rule := (keepsHead_merged.kind _).trans hkind
    rw [isFlatRule_eq hkind] at hjflat
    rw [isFlatRule_eq hgkind, hchildren, keepsHead_merged.any_isBlock_map, any_isBlock_keepLast]
    exact hjflat
  · rw [hchildren, keepsHead_merged.selectorTexts_map, selectorTexts_keepLast]
    exact hjselectors
  · intro property hp
    have hgathered : (gatheredRule g).children = keepLast (joinedRule g).children :=
      children_withChildren _ _
    rw [hchildren, hgathered, keepsHead_merged.lastAssigned_map]
    exact ⟨rfl, (lastAssigned_keepLast hp hjset).trans (hjassigned property)⟩

/-- Groups that are gathered for their declarations give every property the same value. -/
theorem lastAssigned_of_sameGathered {g h : Node × List Node} (hgh : sameGathered g h = true)
    (hg : ∀ n ∈ members g, AllSet n) (hh : ∀ n ∈ members h, AllSet n) {property : String}
    (hp : Text.headIs '@' property = false) :
    lastAssigned property (gatheredRule g).children =
      lastAssigned property (gatheredRule h).children := by
  have hset : ∀ k : Node × List Node, (∀ n ∈ members k, AllSet n) →
      ∀ m ∈ (joinedRule k).children, m.setsNothing = false := by
    intro k hk m hm
    obtain ⟨n, hn, hmn⟩ := mem_children_joinedRule hm
    exact ((allSet_iff n).1 (hk n hn) m hmn).1
  have hchildren : ∀ k, (gatheredRule k).children = keepLast (joinedRule k).children :=
    fun k => children_withChildren _ _
  have hpairs : ∀ pair, pair ∈ declarationPairs (gatheredRule g).children ↔
      pair ∈ declarationPairs (gatheredRule h).children := by
    simp only [sameGathered, takes, sameDeclarations, Bool.and_eq_true, List.all_eq_true,
      List.contains_iff_mem] at hgh
    exact fun pair => ⟨hgh.2.1.2 pair, hgh.2.2 pair⟩
  apply Option.ext
  intro value
  rw [hchildren, hchildren] at *
  rw [lastAssigned_keepLast_eq_some_iff hp (hset g hg),
    lastAssigned_keepLast_eq_some_iff hp (hset h hh)]
  exact hpairs (property, value)

/-! ## Merged groups say what moved groups say -/

theorem covers_resolveSelectors (scope : Option (List String)) (own : List String)
    (selector : Option String) :
    covers (some (resolveSelectors scope own)) selector = true ↔
      ∃ inner ∈ own, covers (some (resolveSelectors scope [inner])) selector = true := by
  cases selector with
  | none => simp [covers]
  | some s =>
    cases scope with
    | none =>
      simp only [covers, resolveSelectors, List.contains_iff_mem, List.mem_singleton]
      constructor
      · exact fun h => ⟨s, h, rfl⟩
      · rintro ⟨inner, h, rfl⟩
        exact h
    | some outer =>
      simp only [covers, resolveSelectors, List.contains_iff_mem, List.mem_flatMap, List.mem_map,
        List.mem_singleton]
      constructor
      · rintro ⟨o, ho, inner, hinner, heq⟩
        exact ⟨inner, hinner, o, ho, inner, rfl, heq⟩
      · rintro ⟨inner, hinner, o, ho, i, hi, heq⟩
        rw [hi] at heq
        exact ⟨o, ho, inner, hinner, heq⟩

/-- Rules with the same selectors, one after the other, say what their bodies say together. -/
theorem lastValue_rules (chain chain' : Chain) (scope : Option (List String))
    (selector : Option String) (property : String) (selectors : List String) (nodes : List Node)
    (h : ∀ n ∈ nodes, n.isFlatRule = true ∧ selectorTexts n.children = selectors) :
    lastValue chain selector property (settingsAll chain' scope (nodes.map gathered)) =
      if chain' = chain ∧ covers (some (resolveSelectors scope selectors)) selector = true then
        lastAssigned property (nodes.flatMap children)
      else none := by
  induction nodes with
  | nil => simp [settingsAll, lastValue, lastAssigned]
  | cons n rest ih =>
    obtain ⟨hflat, hselectors⟩ := h n List.mem_cons_self
    have hkind : n.kind = .rule := (isFlatRule_iff.1 hflat).1
    have hgathered : n.gathered.isFlatRule = true := by
      rw [mapsRules_gathered.isFlatRule]; exact hflat
    rw [List.map_cons, settingsAll, lastValue_append, ih (fun m hm => h m (List.mem_cons_of_mem _ hm)),
      lastValue_flatRule hgathered, mapsRules_gathered.children n hkind,
      mapsRules_gathered.head.selectorTexts_map, mapsRules_gathered.head.lastAssigned_map,
      hselectors, List.flatMap_cons, lastAssigned_append]
    split <;> rfl

theorem isGroup_of_mem_groupsOf {nodes : List Node}
    {gg : (Node × List Node) × List (Node × List Node)} (hgg : gg ∈ groupsOf nodes)
    {g : Node × List Node} (hg : g ∈ members gg) : IsGroup g :=
  isGroup_of_mem (mem_of_mem_gather hgg g hg)

theorem mem_of_mem_groupsOf {nodes : List Node}
    {gg : (Node × List Node) × List (Node × List Node)} (hgg : gg ∈ groupsOf nodes)
    {g : Node × List Node} (hg : g ∈ members gg) {n : Node} (hn : n ∈ members g) : n ∈ nodes :=
  mem_of_mem_gather (mem_of_mem_gather hgg g hg) n hn

theorem isFlatRule_of_gatheredRule {g : Node × List Node} (hg : IsGroup g)
    (h : (gatheredRule g).isFlatRule = true) : g.1.isFlatRule = true := by
  cases hflat : g.1.isFlatRule with
  | true => rfl
  | false =>
    unfold gatheredRule at h
    rw [hg.joinedRule_eq hflat] at h
    have hkind : g.1.kind = .rule := (kind_withChildren _ _).symm.trans (isFlatRule_iff.1 h).1
    rw [isFlatRule_eq ((kind_withChildren _ _).trans hkind), children_withChildren,
      any_isBlock_keepLast, ← isFlatRule_eq hkind, hflat] at h
    cases h

/-- All groups that are gathered with one of flat rules are of flat rules. -/
theorem flat_of_mem_groupsOf {nodes : List Node}
    {gg : (Node × List Node) × List (Node × List Node)} (hgg : gg ∈ groupsOf nodes)
    {g : Node × List Node} (hg : g ∈ gg.2) :
    gg.1.1.isFlatRule = true ∧ g.1.isFlatRule = true := by
  have hsame : sameGathered gg.1 g = true := alike_of_mem_gather hgg g hg
  simp only [sameGathered, takes, Bool.and_eq_true] at hsame
  exact ⟨isFlatRule_of_gatheredRule (isGroup_of_mem_groupsOf hgg List.mem_cons_self) hsame.1.1,
    isFlatRule_of_gatheredRule (isGroup_of_mem_groupsOf hgg (List.mem_cons_of_mem _ hg)) hsame.1.2⟩

/-- A group that holds anything but flat rules holds one node. -/
theorem eq_singleton_of_not_flat {nodes : List Node}
    {gg : (Node × List Node) × List (Node × List Node)} (hgg : gg ∈ groupsOf nodes)
    (hflat : gg.1.1.isFlatRule = false) :
    mergedGroup gg = gg.1.1.merged ∧ movedGroup gg = [gg.1.1.gathered] := by
  have hg : IsGroup gg.1 := isGroup_of_mem_groupsOf hgg List.mem_cons_self
  have hrest : gg.2 = [] := by
    apply List.eq_nil_iff_forall_not_mem.2
    intro g hmem
    have := (flat_of_mem_groupsOf hgg hmem).1
    rw [hflat] at this
    cases this
  have hone : gg.1.2 = [] := hg.eq_nil hflat
  obtain ⟨⟨a, bs⟩, gs⟩ := gg
  cases hrest
  cases hone
  exact ⟨rfl, rfl⟩

section FlatGroups

variable {nodes : List Node} {gg : (Node × List Node) × List (Node × List Node)}

theorem flat_of_mem_members (hgg : gg ∈ groupsOf nodes) (hflat : gg.1.1.isFlatRule = true)
    {g : Node × List Node} (hg : g ∈ members gg) : g.1.isFlatRule = true := by
  rcases List.mem_cons.1 hg with rfl | hg
  · exact hflat
  · exact (flat_of_mem_groupsOf hgg hg).2

/-- What a group among gathered groups comes to. -/
theorem groupRule_spec_of_mem (hset : ∀ n ∈ nodes, AllSet n) (hgg : gg ∈ groupsOf nodes)
    (hflat : gg.1.1.isFlatRule = true) {g : Node × List Node} (hg : g ∈ members gg) :
    (groupRule g).isFlatRule = true ∧
      selectorTexts (groupRule g).children = selectorTexts g.1.children ∧
      ∀ property, Text.headIs '@' property = false →
        lastAssigned property (groupRule g).children =
            lastAssigned property (gatheredRule g).children ∧
          lastAssigned property (gatheredRule g).children =
            lastAssigned property ((members g).flatMap children) :=
  groupRule_spec (isGroup_of_mem_groupsOf hgg hg) (flat_of_mem_members hgg hflat hg)
    (fun n hn => hset n (mem_of_mem_groupsOf hgg hg hn))

/-- The groups that are gathered give every property the same value. -/
theorem lastAssigned_members (hset : ∀ n ∈ nodes, AllSet n) (hgg : gg ∈ groupsOf nodes)
    (hflat : gg.1.1.isFlatRule = true) {g : Node × List Node} (hg : g ∈ members gg)
    {property : String} (hp : Text.headIs '@' property = false) :
    lastAssigned property ((members g).flatMap children) =
      lastAssigned property (gatheredRule gg.1).children := by
  rw [← ((groupRule_spec_of_mem hset hgg hflat hg).2.2 property hp).2]
  rcases List.mem_cons.1 hg with rfl | hg'
  · rfl
  · exact (lastAssigned_of_sameGathered (alike_of_mem_gather hgg g hg')
      (fun n hn => hset n (mem_of_mem_groupsOf hgg List.mem_cons_self hn))
      (fun n hn => hset n (mem_of_mem_groupsOf hgg hg hn)) hp).symm

/-- What gathered groups come to has the selectors of all of them and the values of the first. -/
theorem mergedGroup_spec (hset : ∀ n ∈ nodes, AllSet n) (hgg : gg ∈ groupsOf nodes)
    (hflat : gg.1.1.isFlatRule = true) :
    (mergedGroup gg).isFlatRule = true ∧
      (∀ s, s ∈ selectorTexts (mergedGroup gg).children ↔
        ∃ g ∈ members gg, s ∈ selectorTexts g.1.children) ∧
      ∀ property, Text.headIs '@' property = false →
        lastAssigned property (mergedGroup gg).children =
          lastAssigned property (gatheredRule gg.1).children := by
  have hspec := fun g hg => @groupRule_spec_of_mem nodes gg hset hgg hflat g hg
  obtain ⟨hruleFlat, _, hrule⟩ := hspec gg.1 List.mem_cons_self
  obtain ⟨hmergedFlat, hmergedAssigned, hmergedSelectors⟩ :=
    foldl_absorbSelectors_spec (gg.2.map groupRule) (groupRule gg.1) hruleFlat
  refine ⟨hmergedFlat, ?_, fun property hp =>
    (hmergedAssigned property).trans (hrule property hp).1⟩
  intro s
  have hmap : groupRule gg.1 :: gg.2.map groupRule = (members gg).map groupRule := rfl
  unfold mergedGroup
  rw [hmergedSelectors, hmap]
  simp only [List.mem_map]
  constructor
  · rintro ⟨_, ⟨g, hg, rfl⟩, hs⟩
    rw [(hspec g hg).2.1] at hs
    exact ⟨g, hg, hs⟩
  · rintro ⟨g, hg, hs⟩
    rw [← (hspec g hg).2.1] at hs
    exact ⟨_, ⟨g, hg, rfl⟩, hs⟩

/-- The last value in a moved group, which is that of its first rules if any of its rules is for the
    selector. -/
theorem lastValue_movedGroup (hset : ∀ n ∈ nodes, AllSet n) (hgg : gg ∈ groupsOf nodes)
    (hflat : gg.1.1.isFlatRule = true) (chain chain' : Chain) (scope : Option (List String))
    (selector : Option String) {property : String} (hp : Text.headIs '@' property = false) :
    lastValue chain selector property (settingsAll chain' scope (movedGroup gg)) =
      if (members gg).any (fun g => chain' = chain ∧ covers (some (resolveSelectors scope
          (selectorTexts g.1.children))) selector = true) then
        lastAssigned property (gatheredRule gg.1).children
      else none := by
  apply lastValue_settingsAll_flatMap
  intro g hg
  have hrules : ∀ n ∈ members g, n.isFlatRule = true ∧
      selectorTexts n.children = selectorTexts g.1.children := by
    intro n hn
    rcases List.mem_cons.1 hn with rfl | hn
    · exact ⟨flat_of_mem_members hgg hflat hg, rfl⟩
    · obtain ⟨_, hnflat, hnsel⟩ := sameRule_iff.1 (isGroup_of_mem_groupsOf hgg hg n hn)
      exact ⟨hnflat, hnsel.symm⟩
  rw [lastValue_rules chain chain' scope selector property _ _ hrules,
    lastAssigned_members hset hgg hflat hg hp]
  simp only [decide_eq_true_eq]

end FlatGroups

theorem sameValues_mergedGroup {nodes : List Node} (hset : ∀ n ∈ nodes, AllSet n)
    (hsame : ∀ n ∈ nodes, ∀ chain scope,
      SameValues (n.merged.settings chain scope) (n.gathered.settings chain scope))
    {gg : (Node × List Node) × List (Node × List Node)} (hgg : gg ∈ groupsOf nodes)
    (chain' : Chain) (scope : Option (List String)) :
    SameValues ((mergedGroup gg).settings chain' scope)
      (settingsAll chain' scope (movedGroup gg)) := by
  cases hflat : gg.1.1.isFlatRule with
  | false =>
    obtain ⟨hmerged, hmoved⟩ := eq_singleton_of_not_flat hgg hflat
    have hn : gg.1.1 ∈ nodes := mem_of_mem_groupsOf hgg List.mem_cons_self List.mem_cons_self
    rw [hmerged, hmoved, settingsAll, settingsAll, List.append_nil]
    exact hsame gg.1.1 hn chain' scope
  | true =>
    intro chain selector property hp
    obtain ⟨hmergedFlat, hselectors, hassigned⟩ := mergedGroup_spec hset hgg hflat
    -- The merged rule is for a selector exactly if one of the moved rules is.
    have hiff : (chain' = chain ∧ covers (some (resolveSelectors scope
        (selectorTexts (mergedGroup gg).children))) selector = true) ↔
        (members gg).any (fun g => chain' = chain ∧ covers (some (resolveSelectors scope
          (selectorTexts g.1.children))) selector = true) = true := by
      rw [List.any_eq_true, covers_resolveSelectors]
      simp only [decide_eq_true_eq, hselectors]
      constructor
      · rintro ⟨hchain, s, ⟨g, hg, hs⟩, hcovers⟩
        exact ⟨g, hg, hchain, (covers_resolveSelectors _ _ _).2 ⟨s, hs, hcovers⟩⟩
      · rintro ⟨g, hg, hchain, hcovers⟩
        obtain ⟨s, hs, hcovers⟩ := (covers_resolveSelectors _ _ _).1 hcovers
        exact ⟨hchain, s, ⟨g, hg, hs⟩, hcovers⟩
    rw [@lastValue_flatRule (mergedGroup gg) hmergedFlat, hassigned property hp,
      lastValue_movedGroup hset hgg hflat chain chain' scope selector hp]
    simp only [hiff]

theorem ownSettings_rules (chain : Chain) (within : Option (List String)) (nodes : List Node)
    (h : ∀ n ∈ nodes, n.kind = .rule) : ownSettings chain within nodes = [] :=
  ownSettings_eq_nil chain within nodes (fun n hn => by rw [h n hn]; decide)

theorem ownSettings_mergedGroup {nodes : List Node} (hset : ∀ n ∈ nodes, AllSet n)
    {gg : (Node × List Node) × List (Node × List Node)} (hgg : gg ∈ groupsOf nodes)
    (chain : Chain) (within : Option (List String)) :
    ownSettings chain within [mergedGroup gg] = ownSettings chain within (movedGroup gg) := by
  cases hflat : gg.1.1.isFlatRule with
  | false =>
    obtain ⟨hmerged, hmoved⟩ := eq_singleton_of_not_flat hgg hflat
    rw [hmerged, hmoved]
    exact (keepsHead_merged.ownSettings_map chain within [gg.1.1]).trans
      (mapsRules_gathered.head.ownSettings_map chain within [gg.1.1]).symm
  | true =>
    have hmerged : (mergedGroup gg).kind = .rule :=
      (isFlatRule_iff.1 (mergedGroup_spec hset hgg hflat).1).1
    rw [ownSettings_rules _ _ [mergedGroup gg] (by simpa using hmerged), ownSettings_rules]
    intro n hn
    obtain ⟨g, hg, hn⟩ := List.mem_flatMap.1 hn
    obtain ⟨m, hm, rfl⟩ := List.mem_map.1 hn
    rw [mapsRules_gathered.head.kind]
    rcases List.mem_cons.1 hm with rfl | hm
    · exact (isFlatRule_iff.1 (flat_of_mem_members hgg hflat hg)).1
    · exact (isFlatRule_iff.1 ((isGroup_of_mem_groupsOf hgg hg).flat m hm)).1

/-! ## Merged trees say what moved trees say -/

section Containers

variable {nodes : List Node}

theorem sameValues_mergedList (hset : ∀ n ∈ nodes, AllSet n)
    (hsame : ∀ n ∈ nodes, ∀ chain scope,
      SameValues (n.merged.settings chain scope) (n.gathered.settings chain scope))
    (chain : Chain) (scope : Option (List String)) :
    SameValues (settingsAll chain scope (mergedList nodes))
      (settingsAll chain scope (gatherRules (nodes.map gathered))) := by
  rw [mergedList_eq, gatherRules_map mapsRules_gathered]
  have hall : ∀ l : List ((Node × List Node) × List (Node × List Node)),
      (∀ gg ∈ l, gg ∈ groupsOf nodes) →
      SameValues (settingsAll chain scope (l.map mergedGroup))
        (settingsAll chain scope (l.flatMap movedGroup)) := by
    intro l hl
    induction l with
    | nil => exact SameValues.refl _
    | cons gg rest ih =>
      rw [List.map_cons, List.flatMap_cons, settingsAll, settingsAll_append]
      exact (sameValues_mergedGroup hset hsame (hl gg List.mem_cons_self) chain scope).append
        (ih (fun hh hmem => hl hh (List.mem_cons_of_mem _ hmem)))
  exact hall (groupsOf nodes) (fun _ h => h)

theorem ownSettings_mergedList (hset : ∀ n ∈ nodes, AllSet n) (chain : Chain)
    (within : Option (List String)) :
    ownSettings chain within (mergedList nodes) =
      ownSettings chain within (gatherRules (nodes.map gathered)) := by
  rw [mergedList_eq, gatherRules_map mapsRules_gathered]
  have hall : ∀ l : List ((Node × List Node) × List (Node × List Node)),
      (∀ gg ∈ l, gg ∈ groupsOf nodes) →
      ownSettings chain within (l.map mergedGroup) =
        ownSettings chain within (l.flatMap movedGroup) := by
    intro l hl
    induction l with
    | nil => rfl
    | cons gg rest ih =>
      rw [List.map_cons, List.flatMap_cons, ownSettings_cons, ownSettings_append,
        ownSettings_mergedGroup hset (hl gg List.mem_cons_self),
        ih (fun hh hmem => hl hh (List.mem_cons_of_mem _ hmem))]
  exact hall (groupsOf nodes) (fun _ h => h)

end Containers

/-- **Merging rules is moving them**, for a node at any place. -/
theorem sameValues_merged : ∀ n : Node, AllSet n → ∀ chain scope,
    SameValues (n.merged.settings chain scope) (n.gathered.settings chain scope)
  | .mk kind properties children, hset, chain, scope => by
    have hbelow := (allSet_iff _).1 hset
    have hset' : ∀ c ∈ children, AllSet c := fun c hc => (hbelow c hc).2
    have hone : ∀ c ∈ children, c.setsNothing = false := fun c hc => (hbelow c hc).1
    have hsame : ∀ c ∈ children, ∀ chain scope,
        SameValues (c.merged.settings chain scope) (c.gathered.settings chain scope) :=
      fun c hc => sameValues_merged c (hset' c hc)
    cases kind with
    | rule =>
      have hkind : (Node.mk .rule properties children).kind = .rule := rfl
      rw [settings_rule ((keepsHead_merged.kind _).trans hkind),
        settings_rule ((mapsRules_gathered.head.kind _).trans hkind), children_merged_rule hkind,
        mapsRules_gathered.children _ hkind, keepsHead_merged.selectorTexts_map,
        mapsRules_gathered.head.selectorTexts_map, keepsHead_merged.ownSettings_map,
        mapsRules_gathered.head.ownSettings_map, selectorTexts_keepLast,
        ← keepsHead_merged.keepLast_map, settingsAll_keepLast]
      -- In a rule nothing moves, but declarations that are set again go.
      refine SameValues.append ?_ (sameValues_map _ _ _ children (fun c hc => hsame c hc _ _))
      exact (sameMeaning_keepLast _ _ children hone).lastValue
    | condition =>
      have hkind : (Node.mk .condition properties children).kind = .condition := rfl
      have hgathered : (Node.mk .condition properties children).gathered.children =
          gatherRules (children.map gathered) := children_rebuild _ _
      have hchain : ∀ F : Node → Node, KeepsHead F →
          (F (.mk .condition properties children)).chainBelow chain =
            (Node.mk .condition properties children).chainBelow chain := by
        intro F hF
        unfold chainBelow
        rw [hF.prop, hF.prop]
      rw [settings_condition ((keepsHead_merged.kind _).trans hkind),
        settings_condition ((mapsRules_gathered.head.kind _).trans hkind),
        hchain _ keepsHead_merged, hchain _ mapsRules_gathered.head,
        children_merged_container rfl, hgathered]
      refine SameValues.append (SameValues.of_eq ?_) (sameValues_mergedList hset' hsame _ _)
      cases scope with
      | none => rfl
      | some selectors => exact ownSettings_mergedList hset' _ _
    | declaration | root | selector | comment =>
      rw [keepsHead_merged.settings_of_not_block rfl,
        mapsRules_gathered.head.settings_of_not_block rfl]
      exact SameValues.refl _
termination_by n => sizeOf n
decreasing_by
  have := List.sizeOf_lt_of_mem hc
  simp only [Node.mk.sizeOf_spec]
  omega

/-! ## Trees -/

theorem kind_keepLastDeclarations (n : Node) : n.keepLastDeclarations.kind = n.kind :=
  keepsHead_keepLastDeclarations.kind n

theorem allSet_keepLastDeclarations {n : Node} (h : AllSet n) : AllSet n.keepLastDeclarations :=
  allSet_rebuild (fun kind nodes => (keepLast_rule_sublist kind nodes).subset) h

/-- **Merging the rules of a tree is moving them.** -/
theorem sameValues_mergeRules (dropComments : Bool) {tree : Node} (hroot : tree.kind = .root)
    (hset : AllSet tree) :
    SameValues (settingsOf dropComments tree.mergeRules)
      (settingsOf dropComments tree.gathered) := by
  have hmerged : tree.merged.kind ≠ .rule := by
    rw [keepsHead_merged.kind, hroot]
    decide
  have hselectors : tree.mergeRules.children = tree.merged.children.map keepFirstSelectors := by
    show tree.merged.keepFirstSelectors.children = _
    conv => lhs; unfold keepFirstSelectors
    rw [children_rebuild, if_neg hmerged]
    rfl
  have hcontainer : mergesIn tree.kind = true := by rw [hroot]; rfl
  have hgathered : tree.gathered.children = gatherRules (tree.children.map gathered) := by
    conv => lhs; unfold gathered
    rw [children_rebuild, if_pos hcontainer]
    rfl
  have hbelow := (allSet_iff tree).1 hset
  -- The last pass drops repeated selectors, so only what comes before it has to be compared.
  have hfirst : SameValues
      (settingsAll [] none (tree.merged.children.map keepFirstSelectors))
      (settingsAll [] none (tree.merged.children.map id)) :=
    sameValues_map [] none none _
      (fun c _ => sameValues_keepFirstSelectors c [] none none (fun _ => rfl))
  rw [List.map_id, children_merged_container hcontainer] at hfirst
  rw [settingsOf_eq, settingsOf_eq, hselectors, hgathered, children_merged_container hcontainer]
  exact hfirst.trans (sameValues_mergedList (fun c hc => (hbelow c hc).2)
    (fun c hc => sameValues_merged c (hbelow c hc).2) [] none)

theorem optimize_of_defect?_eq_none {tree : Node} (h : tree.defect? = none) (level : Level) :
    (optimize level tree).1 = tree.reduce level := by
  unfold optimize
  rw [h]

/-- The aggressive level leaves the values that the advanced level leaves after the move. -/
theorem sameValues_optimize_aggressive (dropComments : Bool) {tree : Node}
    (h : tree.defect? = none) :
    SameValues (settingsOf dropComments (optimize .aggressive tree).1)
      (settingsOf dropComments (optimize .advanced tree).1.gathered) := by
  have hroot : tree.tidy.keepLastDeclarations.kind = .root := by
    rw [kind_keepLastDeclarations, kind_tidy, kind_of_defect?_eq_none h]
  rw [optimize_of_defect?_eq_none h, optimize_of_defect?_eq_none h]
  exact sameValues_mergeRules dropComments hroot (allSet_keepLastDeclarations (allSet_tidy tree))

/-- **The aggressive level keeps a value exactly where moving rules keeps it.** For the tree of any
    template, the last value that is not blank of a property of a selector, under some condition
    blocks, is the same after the aggressive level as in the tree itself if and only if it is the
    same before and after every flat rule moves behind the first sibling that it is merged with. -/
theorem lastValue_optimize_aggressive_iff (template : String) (dropComments : Bool) (chain : Chain)
    (selector : Option String) (property : String) (hp : Text.headIs '@' property = false) :
    lastValue chain selector property
        (settingsOf dropComments (optimize .aggressive (parse template)).1) =
      lastValue chain selector property (settingsOf dropComments (parse template)) ↔
    lastValue chain selector property
        (settingsOf dropComments (optimize .advanced (parse template)).1.gathered) =
      lastValue chain selector property
        (settingsOf dropComments (optimize .advanced (parse template)).1) := by
  have hdefect := defect?_parse template
  have hmove := sameValues_optimize_aggressive dropComments hdefect chain selector property hp
  have hadvanced := (sameMeaning_reduce dropComments .advanced (by decide) (parse template)
    (kind_of_defect?_eq_none hdefect)).lastValue chain selector property hp
  rw [optimize_of_defect?_eq_none hdefect .advanced] at hmove ⊢
  rw [hmove, hadvanced]

/-- A rule between two rules of the same selector that sets another property: the second one moves,
    and no value is lost. -/
theorem lastValue_optimize_aggressive_iff_disjoint :
    Text.headIs '@' "color" = false ∧
      lastValue [] (some ".a") "color" (settingsOf true
        (optimize .aggressive (parse ".a {color: red} .a, .b {top: 0} .a {color: green}")).1) =
      lastValue [] (some ".a") "color" (settingsOf true
        (parse ".a {color: red} .a, .b {top: 0} .a {color: green}")) := by
  refine ⟨by decide, ?_⟩
  exact (lastValue_optimize_aggressive_iff ".a {color: red} .a, .b {top: 0} .a {color: green}" true
    [] (some ".a") "color" (by decide)).2 (by decide +kernel)

/-- The rule in between overrides the first of two rules of the same selector, and the second one
    overrides it again. Merged, the two stand in front of it. -/
theorem optimize_aggressive_changes_value :
    lastValue [] (some ".a") "color" (settingsOf true (optimize .aggressive
        (parse ".a { color: red } .a, .b { color: blue } .a { color: green }")).1) = some "blue" ∧
      lastValue [] (some ".a") "color" (settingsOf true
        (parse ".a { color: red } .a, .b { color: blue } .a { color: green }")) = some "green" := by
  decide +kernel

end Theming.Sheet
