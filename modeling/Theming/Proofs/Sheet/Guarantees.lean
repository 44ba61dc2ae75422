import Theming.Proofs.Sheet.Declaring

set_option autoImplicit false

/-! # What the aggressive level guarantees

After the aggressive level no rule repeats a selector or sets a property twice, and no two flat rules
beside each other declare the same pairs. Each of these is brought about by one pass, and the passes
after it must leave it alone: merging adds selectors to rules, dropping selectors changes the rules
that were compared. So a pass is looked at as a change of every list of children, and a property of
nodes that each change brings about or keeps is one of the whole tree (`everywhere_rebuild`).

What the stylesheet declares stays: for a selector, under some condition blocks, a property has a
value that is not blank after the passes just when it had one before.

Main statement: `optimize_aggressive_guarantees`. -/

namespace Theming.Sheet

open Node

/-! ## Passes that fold rules -/

/-- Where rules are folded, those that take others must keep a property of all nodes. -/
theorem everywhere_rebuild_foldRules {P Q : Node → Prop} {n : Node} {alike : Node → Node → Bool}
    {absorb : Node → Node → Node} (ha : Absorbs alike absorb)
    (htake : ∀ a b, takes alike a b = true → Everywhere Q a → Everywhere Q b →
      Everywhere Q (absorb a b))
    (hself : ∀ m, P m → Q (m.rebuild (fun kind nodes =>
      if mergesIn kind then foldRules alike absorb nodes else nodes)))
    (h : Everywhere P n) :
    Everywhere Q (n.rebuild (fun kind nodes =>
      if mergesIn kind then foldRules alike absorb nodes else nodes)) := by
  refine everywhere_rebuild (fun kind nodes hnodes => ?_) hself h
  split
  · exact forall_mem_foldRules_of_takes ha htake hnodes
  · exact hnodes

/-! ## Properties set once -/

/-- The properties that some nodes set, at-words apart. -/
def setProperties (nodes : List Node) : List String :=
  (nodes.filter setsProperty).map (fun m => m.prop propertyKey)

theorem setProperties_eq (nodes : List Node) :
    setProperties nodes =
      ((declarationPairs nodes).map Prod.fst).filter (fun p => !Text.headIs '@' p) := by
  rw [setProperties, declarationPairs, List.map_map, List.filter_map, List.filter_filter]
  congr 1
  apply List.filter_congr
  intro n _
  simp [setsProperty, isStatement, Bool.and_comm]

theorem setProperties_congr {a b : List Node} (h : declarationPairs a = declarationPairs b) :
    setProperties a = setProperties b := by
  rw [setProperties_eq, setProperties_eq, h]

/-- A rule sets no property twice. -/
def SetsOnce (n : Node) : Prop := n.kind = .rule → (setProperties n.children).Nodup

theorem nodup_setProperties_keepLast (nodes : List Node) :
    (setProperties (keepLast nodes)).Nodup := by
  induction nodes with
  | nil => exact List.nodup_nil
  | cons n rest ih =>
    rw [keepLast]
    split
    · exact ih
    · next hnone =>
      by_cases hset : n.setsProperty = true
      · rw [setProperties, List.filter_cons_of_pos hset, List.map_cons, List.nodup_cons]
        refine ⟨fun hmem => hnone ?_, ih⟩
        obtain ⟨m, hm, hprop⟩ := List.mem_map.1 hmem
        obtain ⟨hmem, hmset⟩ := List.mem_filter.1 hm
        exact List.any_eq_true.2
          ⟨m, (keepLast_sublist rest).subset hmem, setsSame_iff.2 ⟨hset, hmset, hprop.symm⟩⟩
      · rwa [setProperties, List.filter_cons_of_neg hset]

theorem setsOnce_keepLastDeclarations (n : Node) : Everywhere SetsOnce n.keepLastDeclarations := by
  refine everywhere_rebuild (P := fun _ => True)
    (fun kind nodes hnodes c hc => hnodes c ((keepLast_rule_sublist kind nodes).subset hc))
    (fun m _ hkind => ?_) (fun _ _ => trivial)
  rw [kind_rebuild] at hkind
  rw [children_rebuild, if_pos hkind]
  exact nodup_setProperties_keepLast _

/-! ## Rules apart -/

/-- Among the children of a root or a condition block, no rule takes another one for its
    declarations. -/
def Apart (n : Node) : Prop :=
  mergesIn n.kind = true →
    n.children.Pairwise (fun a b => takes sameDeclarations a b = false)

theorem sameDeclared_absorbSelectors {a : Node} (ha : a.isFlatRule = true) (b : Node) :
    SameDeclared (absorbSelectors a b) a :=
  ⟨(isFlatRule_absorbSelectors ha b).trans ha.symm, fun _ => declarationPairs_absorbSelectors a b⟩

theorem sameDeclared_foldl_absorbSelectors (rest : List Node) (a : Node)
    (h : ∀ b ∈ rest, takes sameDeclarations a b = true) :
    SameDeclared (rest.foldl absorbSelectors a) a := by
  induction rest generalizing a with
  | nil => exact ⟨rfl, fun _ => rfl⟩
  | cons b rest ih =>
    have htakes := h b List.mem_cons_self
    have hone := sameDeclared_absorbSelectors (takes_iff.1 htakes).1 b
    have hrest := ih (absorbSelectors a b) fun c hc =>
      (takes_absorb absorbs_absorbSelectors htakes c).trans (h c (List.mem_cons_of_mem b hc))
    exact ⟨hrest.1.trans hone.1, fun hflat =>
      (hrest.2 hflat).trans (hone.2 (hrest.1 ▸ hflat))⟩

/-- After the groups are merged, no rule takes another one. -/
theorem pairwise_foldRules_absorbSelectors (nodes : List Node) :
    (foldRules sameDeclarations absorbSelectors nodes).Pairwise
      (fun a b => takes sameDeclarations a b = false) := by
  rw [foldRules_eq absorbs_absorbSelectors, List.pairwise_map]
  refine (pairwise_gather (takes sameDeclarations) nodes).imp_of_mem ?_
  intro g h hg hh hne
  rw [takes_sameDeclarations_congr
    (sameDeclared_foldl_absorbSelectors g.2 g.1 (alike_of_mem_gather hg))
    (sameDeclared_foldl_absorbSelectors h.2 h.1 (alike_of_mem_gather hh))]
  exact hne

theorem everywhere_newSelectors {P : Node → Prop} {a b c : Node} (hc : c ∈ newSelectors a b)
    (hP : ∀ text, P (.selector text)) : Everywhere P c := by
  obtain ⟨text, -, rfl⟩ := List.mem_map.1 hc
  exact everywhere_iff.2 ⟨hP text, fun d hd => by cases hd⟩

theorem setsOnce_apart_mergeBodies {n : Node} (h : Everywhere SetsOnce n) :
    Everywhere (fun m => SetsOnce m ∧ Apart m) n.mergeBodies := by
  refine everywhere_rebuild_foldRules absorbs_absorbSelectors ?_ ?_ h
  · -- A rule that takes another one declares what it did, and holds no rules.
    intro a b htakes ha _
    have hrule := (isFlatRule_iff.1 (takes_iff.1 htakes).1).1
    refine everywhere_iff.2 ⟨⟨fun _ => ?_, fun hmerges => ?_⟩, fun c hc => ?_⟩
    · rw [setProperties_congr (declarationPairs_absorbSelectors a b)]
      exact ha.self.1 hrule
    · rw [(isFlatRule_iff.1 (isFlatRule_absorbSelectors (takes_iff.1 htakes).1 b)).1] at hmerges
      cases hmerges
    · rw [children_absorbSelectors, List.mem_append, List.mem_append] at hc
      rcases hc with (hc | hc) | hc
      · exact ha.child (List.mem_filter.1 hc).1
      · exact everywhere_newSelectors hc fun text => ⟨fun hk => (by cases hk), fun hk => (by cases hk)⟩
      · exact ha.child (List.mem_filter.1 hc).1
  · intro m hm
    constructor
    · intro hkind
      rw [kind_rebuild] at hkind
      rw [children_rebuild, hkind]
      exact setProperties_congr ((keepsHead_rebuild _).declarationPairs_map m.children) ▸ hm hkind
    · intro hmerges
      rw [kind_rebuild] at hmerges
      rw [children_rebuild, if_pos hmerges]
      exact pairwise_foldRules_absorbSelectors _

/-! ## Selectors listed once -/

/-- A rule lists no selector twice. -/
def ListsOnce (n : Node) : Prop := n.kind = .rule → (selectorTexts n.children).Nodup

theorem nodup_selectorTexts_keepFirst (seen : List String) (nodes : List Node) :
    (selectorTexts (keepFirst seen nodes)).Nodup ∧
      ∀ text ∈ selectorTexts (keepFirst seen nodes), text ∉ seen := by
  induction nodes generalizing seen with
  | nil => exact ⟨List.nodup_nil, fun _ ht => by cases ht⟩
  | cons n rest ih =>
    rw [keepFirst]
    split
    · next hkind =>
      dsimp only
      split
      · exact ih seen
      · next hnew =>
        obtain ⟨hnodup, hseen⟩ := ih (n.prop textKey :: seen)
        have hcons : selectorTexts (n :: keepFirst (n.prop textKey :: seen) rest) =
            n.prop textKey :: selectorTexts (keepFirst (n.prop textKey :: seen) rest) := by
          simp [selectorTexts, hkind]
        rw [hcons]
        refine ⟨List.nodup_cons.2 ⟨fun hmem => hseen _ hmem List.mem_cons_self, hnodup⟩, ?_⟩
        intro text htext
        rcases List.mem_cons.1 htext with rfl | htext
        · simpa using hnew
        · exact fun hmem => hseen text htext (List.mem_cons_of_mem _ hmem)
    · next hkind =>
      have hcons : selectorTexts (n :: keepFirst seen rest) = selectorTexts (keepFirst seen rest) := by
        simp [selectorTexts, hkind]
      rw [hcons]
      exact ih seen

/-- Dropping selectors changes nothing about which rules are taken. -/
theorem sameDeclared_keepFirstSelectors (n : Node) : SameDeclared n.keepFirstSelectors n := by
  have hkind := keepsHead_keepFirstSelectors.kind n
  by_cases hrule : n.kind = .rule
  · have hchildren : n.keepFirstSelectors.children =
        keepFirst [] (n.children.map keepFirstSelectors) := by
      unfold keepFirstSelectors
      rw [children_rebuild, if_pos hrule]
    constructor
    · rw [isFlatRule_eq (hkind.trans hrule), isFlatRule_eq hrule, hchildren,
        any_keepFirst (fun m hm => by simp [isBlock, hm]),
        keepsHead_keepFirstSelectors.any_isBlock_map]
    · intro _
      rw [hchildren, declarationPairs_keepFirst, keepsHead_keepFirstSelectors.declarationPairs_map]
  · have hflat := isFlatRule_of_kind_ne hrule
    have hflat' := isFlatRule_of_kind_ne (hkind.trans_ne hrule)
    exact ⟨hflat'.trans hflat.symm, fun h => by simp [hflat'] at h⟩

theorem listsOnce_keepFirstSelectors {n : Node} (h : Everywhere (fun m => SetsOnce m ∧ Apart m) n) :
    Everywhere (fun m => ListsOnce m ∧ SetsOnce m ∧ Apart m) n.keepFirstSelectors := by
  refine everywhere_rebuild
    (fun kind nodes hnodes c hc => hnodes c ((keepFirst_rule_sublist kind nodes).subset hc)) ?_ h
  rintro m ⟨hsets, hapart⟩
  refine ⟨fun hkind => ?_, fun hkind => ?_, fun hmerges => ?_⟩
  · rw [kind_rebuild] at hkind
    rw [children_rebuild, if_pos hkind]
    exact (nodup_selectorTexts_keepFirst [] _).1
  · rw [kind_rebuild] at hkind
    have hpairs : declarationPairs
        (keepFirst [] (m.children.map keepFirstSelectors)) = declarationPairs m.children :=
      (declarationPairs_keepFirst [] _).trans
        (keepsHead_keepFirstSelectors.declarationPairs_map m.children)
    rw [children_rebuild, if_pos hkind]
    exact setProperties_congr hpairs ▸ hsets hkind
  · rw [kind_rebuild] at hmerges
    have hkind : m.kind ≠ .rule := fun hk => by simp [hk, mergesIn] at hmerges
    rw [children_rebuild, if_neg hkind, List.pairwise_map]
    refine (hapart hmerges).imp fun {a b} hne => ?_
    exact (takes_sameDeclarations_congr (sameDeclared_keepFirstSelectors a)
      (sameDeclared_keepFirstSelectors b)).trans hne

theorem everywhere_mergeRules (n : Node) :
    Everywhere (fun m => ListsOnce m ∧ SetsOnce m ∧ Apart m) n.mergeRules :=
  listsOnce_keepFirstSelectors (setsOnce_apart_mergeBodies (setsOnce_keepLastDeclarations _))

/-! ## Rules with declarations -/

theorem noHollow_mergeRules {n : Node} (h : NoHollow n) : NoHollow n.mergeRules :=
  shortens_keepFirst.noHollow_rebuild (shortens_mergeBodies.noHollow_rebuild
    (shortens_keepLast.noHollow_rebuild (shortens_coalesce.noHollow_rebuild h)))

/-- A flat rule with content has a declaration. -/
theorem declarationPairs_ne_nil {n : Node} (hflat : n.isFlatRule = true)
    (h : n.kind = .rule → n.hasContent = true) : declarationPairs n.children ≠ [] := by
  obtain ⟨hkind, hblocks⟩ := isFlatRule_iff.1 hflat
  obtain ⟨m, hm, hcontent⟩ := List.any_eq_true.1 (h hkind)
  rw [hblocks m hm, Bool.or_false] at hcontent
  exact List.ne_nil_of_mem (List.mem_map_of_mem (List.mem_filter.2 ⟨hm, hcontent⟩))

/-- Rules with the same pairs, and with any, are taken for each other. -/
theorem takes_of_same_pairs {a b : Node} (ha : a.isFlatRule = true) (hb : b.isFlatRule = true)
    (hne : declarationPairs b.children ≠ [])
    (h : ∀ pair, pair ∈ declarationPairs a.children ↔ pair ∈ declarationPairs b.children) :
    takes sameDeclarations a b = true := by
  refine takes_iff.2 ⟨ha, hb, ?_⟩
  simp only [sameDeclarations, Bool.and_eq_true, List.all_eq_true, List.contains_iff_mem,
    Bool.not_eq_true', List.isEmpty_eq_false_iff]
  exact ⟨⟨hne, fun pair => (h pair).1⟩, fun pair => (h pair).2⟩

/-! ## Values that are not blank -/

theorem isSome_lastValue_iff {settings : List Setting} {chain : Chain} {s : Option String}
    {p : String} :
    (lastValue chain s p settings).isSome ↔ DeclaresSome settings chain s p := by
  rw [lastValue, List.getLast?_isSome, ne_eq, List.map_eq_nil_iff, List.filter_eq_nil_iff]
  simp only [Setting.gives, Bool.and_eq_true, beq_iff_eq, Bool.not_eq_true', not_forall, not_not,
    DeclaresSome, Declares]
  constructor
  · rintro ⟨e, he, ⟨⟨hchain, hcovers⟩, hprop⟩, hvalue⟩
    exact ⟨e.value, hvalue, e, he, hchain, hcovers, hprop, rfl⟩
  · rintro ⟨-, hvalue, e, he, hchain, hcovers, hprop, rfl⟩
    exact ⟨e, he, ⟨⟨hchain, hcovers⟩, hprop⟩, hvalue⟩

/-- What has the same meaning declares values for the same properties: a property by its last value,
    an at-word as a statement. -/
theorem SameMeaning.declaresSome {a b : List Setting} (h : SameMeaning a b) {chain : Chain}
    {s : Option String} {p : String} (ha : DeclaresSome a chain s p) : DeclaresSome b chain s p := by
  by_cases hat : Text.headIs '@' p = true
  · obtain ⟨value, hvalue, e, he, rfl, hcovers, rfl, rfl⟩ := ha
    have hmem : (e.property, e.value) ∈ statementsAt e.chain e.selectors a :=
      List.mem_map.2 ⟨e, List.mem_filter.2 ⟨he, by simp [Setting.isStatementAt, hat]⟩, rfl⟩
    rw [h.statements] at hmem
    obtain ⟨e', he', heq⟩ := List.mem_map.1 hmem
    simp only [List.mem_filter, Setting.isStatementAt, Bool.and_eq_true, beq_iff_eq] at he'
    obtain ⟨he', ⟨hchain, hselectors⟩, -⟩ := he'
    obtain ⟨hprop, hval⟩ := Prod.mk.inj heq
    exact ⟨e.value, hvalue, e', he', hchain, hselectors ▸ hcovers, hprop, hval⟩
  · rw [← isSome_lastValue_iff] at ha ⊢
    rwa [← h.lastValue chain s p (by simpa using hat)]

theorem SameMeaning.declaresSome_iff {a b : List Setting} (h : SameMeaning a b) (chain : Chain)
    (s : Option String) (p : String) : DeclaresSome a chain s p ↔ DeclaresSome b chain s p :=
  ⟨h.declaresSome, h.symm.declaresSome⟩

theorem SaysSame.declaresSome_iff {out tree : Node} (h : SaysSame out.children tree.children)
    (dropComments : Bool) (chain : Chain) (s : Option String) (p : String) :
    DeclaresSome (settingsOf dropComments out) chain s p ↔
      DeclaresSome (settingsOf dropComments tree) chain s p := by
  constructor
  · rintro ⟨value, hvalue, hdeclares⟩
    exact ⟨value, hvalue, h.1.declares dropComments hdeclares⟩
  · rintro ⟨value, hvalue, hdeclares⟩
    exact ⟨value, hvalue, h.2.declares dropComments hdeclares⟩

/-- Gathering bodies adds no declaration of nothing. -/
theorem allSet_coalesce {n : Node} (hroot : n.kind = .root) (h : AllSet n) : AllSet n.coalesce := by
  have heverywhere : Everywhere (fun m => m.setsNothing = false) n := by
    intro m hm
    rcases mem_preorder_iff_below.1 hm with rfl | hbelow
    · simp [setsNothing, setsProperty, hroot]
    · exact h m hbelow
  have hcoalesced : Everywhere (fun m => m.setsNothing = false) n.coalesce := by
    refine everywhere_rebuild_foldRules absorbs_absorbBody ?_
      (fun m hm => (setsNothing_rebuild _ m).trans hm) heverywhere
    intro a b htakes ha hb
    have hrule := (isFlatRule_iff.1 (isFlatRule_absorbBody (takes_iff.1 htakes).1
      (takes_iff.1 htakes).2.1)).1
    refine everywhere_iff.2 ⟨by simp [setsNothing, setsProperty, hrule], fun c hc => ?_⟩
    rw [children_absorbBody, List.mem_append] at hc
    rcases hc with hc | hc
    · exact ha.child hc
    · exact hb.child (List.mem_filter.1 hc).1
  exact fun m hm => hcoalesced m (mem_preorder_iff_below.2 (.inr hm))

theorem declaresSome_mergeRules (dropComments : Bool) {n : Node} (hroot : n.kind = .root)
    (hset : AllSet n) (chain : Chain) (s : Option String) (p : String) :
    DeclaresSome (settingsOf dropComments n.mergeRules) chain s p ↔
      DeclaresSome (settingsOf dropComments n) chain s p := by
  have hlast := sameMeaning_keepLastDeclarations dropComments n.coalesce
    ((kind_rebuild _ n).trans hroot) (allSet_coalesce hroot hset)
  exact ((saysSame_keepFirstSelectors _).declaresSome_iff dropComments chain s p).trans
    (((saysSame_mergeBodies _).declaresSome_iff dropComments chain s p).trans
      ((hlast.declaresSome_iff chain s p).trans
        ((saysSame_coalesce n).declaresSome_iff dropComments chain s p)))

theorem declaresSome_reduce (dropComments : Bool) (level : Level) {tree : Node}
    (hroot : tree.kind = .root) (chain : Chain) (s : Option String) (p : String) :
    DeclaresSome (settingsOf dropComments (tree.reduce level)) chain s p ↔
      DeclaresSome (settingsOf dropComments tree) chain s p := by
  by_cases hlevel : level = .aggressive
  · subst hlevel
    have hadvanced := sameMeaning_reduce dropComments .advanced (by decide) tree hroot
    have hkind : tree.tidy.keepLastDeclarations.kind = .root := by
      rw [kind_keepLastDeclarations, kind_tidy, hroot]
    exact (declaresSome_mergeRules dropComments hkind
      (allSet_keepLastDeclarations (allSet_tidy tree)) chain s p).trans
      (hadvanced.declaresSome_iff chain s p)
  · exact (sameMeaning_reduce dropComments level hlevel tree hroot).declaresSome_iff chain s p

/-! ## The aggressive level -/

theorem noHollow_reduce_aggressive {tree : Node} (hroot : tree.kind = .root) :
    NoHollow (tree.reduce .aggressive) := by
  have htidy : NoHollow tree.tidy := (allFilled_tidy tree).noHollow fun hkind => by
    rw [kind_tidy, hroot] at hkind
    cases hkind
  exact noHollow_mergeRules (shortens_keepLast.noHollow_rebuild htidy)

/-- **What the aggressive level guarantees.** In the result for any template, no rule lists a selector
    twice or sets a property twice, and of the flat rules right in the root or right in the same
    condition block no two declare the same pairs. A property of a selector under some condition
    blocks has a value that is not blank just when it had one before, and every value that it has is
    one that was declared for it. -/
theorem optimize_aggressive_guarantees (template : String) (dropComments : Bool) :
    let tree := parse template
    let out := (optimize .aggressive tree).1
    (∀ n ∈ out.preorder,
      (n.kind = .rule → (selectorTexts n.children).Nodup ∧ (setProperties n.children).Nodup) ∧
      (n.kind = .root ∨ n.kind = .condition →
        n.children.Pairwise fun a b => a.isFlatRule = true → b.isFlatRule = true →
          ¬ ∀ pair, pair ∈ declarationPairs a.children ↔ pair ∈ declarationPairs b.children)) ∧
    (∀ chain selector property,
      DeclaresSome (settingsOf dropComments out) chain selector property ↔
        DeclaresSome (settingsOf dropComments tree) chain selector property) ∧
    ∀ chain selector property value,
      Declares (settingsOf dropComments out) chain selector property value →
        Declares (settingsOf dropComments tree) chain selector property value := by
  intro tree out
  have hroot : tree.kind = .root := rfl
  have hout : out = tree.reduce .aggressive :=
    optimize_of_defect?_eq_none (defect?_parse template) .aggressive
  rw [hout]
  refine ⟨fun n hn => ?_, declaresSome_reduce dropComments .aggressive hroot,
    fun _ _ _ _ => (saysNoMore_reduce .aggressive tree).declares dropComments⟩
  obtain ⟨hlists, hsets, hapart⟩ := everywhere_mergeRules _ n hn
  refine ⟨fun hkind => ⟨hlists hkind, hsets hkind⟩, fun hkind => ?_⟩
  have hmerges : mergesIn n.kind = true := by simpa [mergesIn] using hkind
  refine (hapart hmerges).imp_of_mem fun {a b} _ hb hne hflata hflatb hsame => ?_
  -- The rules have declarations, so with the same pairs the one would have taken the other.
  have hcontent := noHollow_reduce_aggressive hroot b
    (mem_preorder_iff_below.2 (.inr (mem_preorderAll_of_child hn hb)))
  rw [takes_of_same_pairs hflata hflatb (declarationPairs_ne_nil hflatb hcontent) hsame] at hne
  cases hne

end Theming.Sheet
