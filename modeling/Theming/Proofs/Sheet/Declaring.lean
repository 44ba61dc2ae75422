import Theming.Proofs.Sheet.Lengths
import Theming.Proofs.Sheet.Merging

set_option autoImplicit false

/-! # Declared values under the passes

Merging rules can change which of several values is the last one. What it cannot change is which
values are declared at all: for a selector, under some condition blocks, a property has the values
that some declaration of it gives (`Declares`).

Two relations between lists of nodes carry this through the passes. `SaysNoMore` says that nothing is
declared in the first list that is not declared in the second one, wherever the nodes stand;
`SaysSame` says that both declare the same. The passes that drop nodes give the first
(`Drops.saysNoMore_rebuild`), the passes that merge rules and drop repeated selectors the second
(`Rearranges.saysSame_rebuild`). -/

namespace Theming.Sheet

open Node

/-! ## Declared values -/

/-- Some settings declare a value of a property for a selector, under some condition blocks. -/
def Declares (settings : List Setting) (chain : Chain) (selector : Option String)
    (property value : String) : Prop :=
  ∃ e ∈ settings, e.chain = chain ∧ covers e.selectors selector = true ∧
    e.property = property ∧ e.value = value

/-- Some settings declare a value that is not blank. -/
def DeclaresSome (settings : List Setting) (chain : Chain) (selector : Option String)
    (property : String) : Prop :=
  ∃ value, Text.allBlank value = false ∧ Declares settings chain selector property value

section

variable {c chain : Chain} {s : Option String} {p v : String} {scope scope' : Option (List String)}

theorem declares_append {a b : List Setting} :
    Declares (a ++ b) c s p v ↔ Declares a c s p v ∨ Declares b c s p v := by
  simp only [Declares, List.mem_append, or_and_right, exists_or]

theorem declares_ownSettings {nodes : List Node} :
    Declares (ownSettings chain scope nodes) c s p v ↔
      chain = c ∧ covers scope s = true ∧ (p, v) ∈ declarationPairs nodes := by
  simp only [Declares, ownSettings, declarationPairs, List.mem_map, exists_exists_and_eq_and,
    Prod.mk.injEq]
  constructor
  · rintro ⟨n, hn, hchain, hcovers, hp, hv⟩
    exact ⟨hchain, hcovers, n, hn, hp, hv⟩
  · rintro ⟨hchain, hcovers, n, hn, hp, hv⟩
    exact ⟨n, hn, hchain, hcovers, hp, hv⟩

theorem declares_settingsAll {nodes : List Node} :
    Declares (settingsAll chain scope nodes) c s p v ↔
      ∃ n ∈ nodes, Declares (n.settings chain scope) c s p v := by
  induction nodes with
  | nil => simp [settingsAll, Declares]
  | cons n rest ih => simp [settingsAll, declares_append, ih]

/-- Of the nodes that are no blocks, only declarations outside of rules declare anything. -/
theorem declares_of_not_isBlock {n : Node} (h : n.isBlock = false) :
    Declares (n.settings chain scope) c s p v ↔
      scope = none ∧ n.kind = .declaration ∧ chain = c ∧ s = none ∧
        n.prop propertyKey = p ∧ n.prop valueKey = v := by
  cases scope with
  | some selectors =>
    rw [settings_inside_of_not_block chain selectors n h]
    simp [Declares]
  | none =>
    by_cases hkind : n.kind = .declaration
    · rw [settings_declaration chain n hkind, declares_ownSettings]
      cases s <;> simp [covers, declarationPairs, hkind, eq_comm]
    · obtain ⟨kind, properties, children⟩ := n
      have hnone : (Node.mk kind properties children).settings chain none = [] := by
        cases kind with
        | rule | condition => cases h
        | declaration => exact absurd rfl hkind
        | root | selector | comment => rfl
      rw [hnone]
      simp [Declares, show kind ≠ .declaration from hkind]

/-- A flat rule declares what its declarations say, for its own selectors. -/
theorem declares_flatRule {n : Node} (hn : n.isFlatRule = true) :
    Declares (n.settings chain scope) c s p v ↔
      chain = c ∧ covers (some (resolveSelectors scope (selectorTexts n.children))) s = true ∧
        (p, v) ∈ declarationPairs n.children := by
  obtain ⟨hkind, hchildren⟩ := isFlatRule_iff.1 hn
  rw [settings_rule hkind, settingsAll_eq_nil _ _ _
    (fun m hm => settings_inside_of_not_block _ _ m (hchildren m hm)), List.append_nil,
    declares_ownSettings]

end

/-! ## Nothing more is said -/

theorem SameScope.refl (scope : Option (List String)) : SameScope scope scope := fun _ => rfl

theorem SameScope.symm {a b : Option (List String)} (h : SameScope a b) : SameScope b a :=
  fun selector => (h selector).symm

/-- Wherever some nodes stand, what they declare is declared by other ones too, also if the lists of
    selectors around the two are not the same but have the same members. -/
def SaysNoMore (a b : List Node) : Prop :=
  ∀ (chain : Chain) (scope scope' : Option (List String)), SameScope scope scope' →
    ∀ c s p v, Declares (settingsAll chain scope a) c s p v →
      Declares (settingsAll chain scope' b) c s p v

namespace SaysNoMore

variable {a a' b b' c : List Node} {n n' : Node}

theorem append (ha : SaysNoMore a a') (hb : SaysNoMore b b') : SaysNoMore (a ++ b) (a' ++ b') := by
  intro chain scope scope' hscope c s p v h
  rw [settingsAll_append, declares_append] at h ⊢
  exact h.imp (ha chain scope scope' hscope c s p v) (hb chain scope scope' hscope c s p v)

/-- A node says no more than one of its kind and texts with the same selectors and no fewer
    declarations, if that holds for what is below the two. -/
theorem node (hkind : n'.kind = n.kind) (hproperties : n'.properties = n.properties)
    (hselectors : ∀ text, text ∈ selectorTexts n'.children ↔ text ∈ selectorTexts n.children)
    (hpairs : declarationPairs n'.children ⊆ declarationPairs n.children)
    (h : SaysNoMore n'.children n.children) : SaysNoMore [n'] [n] := by
  intro chain scope scope' hscope c s p v hdeclares
  simp only [settingsAll, List.append_nil] at hdeclares ⊢
  have hprop : ∀ key, n'.prop key = n.prop key := fun key => by unfold prop; rw [hproperties]
  by_cases hrule : n.kind = .rule
  · have hresolve := hscope.resolve hselectors
    rw [settings_rule (hkind.trans hrule), declares_append, declares_ownSettings] at hdeclares
    rw [settings_rule hrule, declares_append, declares_ownSettings]
    refine hdeclares.imp ?_ (h _ _ _ hresolve c s p v)
    rintro ⟨hchain, hcovers, hmem⟩
    exact ⟨hchain, hresolve s ▸ hcovers, hpairs hmem⟩
  by_cases hcondition : n.kind = .condition
  · have hbelow : n'.chainBelow chain = n.chainBelow chain := by
      unfold chainBelow
      rw [hprop, hprop]
    rw [settings_condition (hkind.trans hcondition), declares_append, hbelow] at hdeclares
    rw [settings_condition hcondition, declares_append]
    refine hdeclares.imp ?_ (h _ _ _ hscope c s p v)
    rcases hscope.none_or_some with ⟨rfl, rfl⟩ | ⟨l, l', rfl, rfl⟩
    · exact id
    · simp only [looseSettings, declares_ownSettings]
      rintro ⟨hchain, hcovers, hmem⟩
      exact ⟨hchain, hscope s ▸ hcovers, hpairs hmem⟩
  -- What is left is no block, and says what its own kind and texts say.
  have hblock : n.isBlock = false := by simp [isBlock, hrule, hcondition]
  have hblock' : n'.isBlock = false := by simp [isBlock, hkind, hrule, hcondition]
  rw [declares_of_not_isBlock hblock'] at hdeclares
  rw [declares_of_not_isBlock hblock, ← hkind, ← hprop, ← hprop]
  obtain ⟨rfl, hdeclares⟩ := hdeclares
  rcases hscope.none_or_some with ⟨-, rfl⟩ | ⟨l, l', hl, -⟩
  · exact ⟨rfl, hdeclares⟩
  · cases hl

theorem of_forall (h : ∀ n ∈ a, SaysNoMore [n] b) : SaysNoMore a b := by
  intro chain scope scope' hscope c s p v hdeclares
  obtain ⟨n, hn, hdeclares⟩ := declares_settingsAll.1 hdeclares
  exact h n hn chain scope scope' hscope c s p v
    (declares_settingsAll.2 ⟨n, List.mem_singleton_self n, hdeclares⟩)

theorem of_mem (hn : n ∈ b) (h : SaysNoMore [n'] [n]) : SaysNoMore [n'] b := by
  intro chain scope scope' hscope c s p v hdeclares
  obtain ⟨m, hm, hdeclares⟩ := declares_settingsAll.1 (h chain scope scope' hscope c s p v hdeclares)
  exact declares_settingsAll.2 ⟨n, hn, List.mem_singleton.1 hm ▸ hdeclares⟩

/-- Under lists of selectors with the same members, a node declares the same. -/
theorem self (n : Node) : SaysNoMore [n] [n] := by
  induction n using children_induction with
  | step n ih =>
    exact node rfl rfl (fun _ => Iff.rfl) (List.Subset.refl _)
      (of_forall (fun c hc => of_mem hc (ih c hc)))

theorem of_subset (h : a ⊆ b) : SaysNoMore a b :=
  of_forall (fun n hn => of_mem (h hn) (self n))

theorem refl (a : List Node) : SaysNoMore a a := of_subset (List.Subset.refl a)

theorem trans (hab : SaysNoMore a b) (hbc : SaysNoMore b c) : SaysNoMore a c :=
  fun chain scope scope' hscope c s p v h =>
    hbc chain scope' scope' (SameScope.refl scope') c s p v
      (hab chain scope scope' hscope c s p v h)

theorem map {F : Node → Node} {nodes : List Node} (h : ∀ n ∈ nodes, SaysNoMore [F n] [n]) :
    SaysNoMore (nodes.map F) nodes := by
  apply of_forall
  intro m hm
  obtain ⟨n, hn, rfl⟩ := List.mem_map.1 hm
  exact of_mem hn (h n hn)

/-- What a tree declares is declared by its stylesheet. -/
theorem declares {out tree : Node} (h : SaysNoMore out.children tree.children)
    (dropComments : Bool) {chain : Chain} {s : Option String} {p v : String}
    (hdeclares : Declares (settingsOf dropComments out) chain s p v) :
    Declares (settingsOf dropComments tree) chain s p v := by
  rw [settingsOf_eq] at hdeclares ⊢
  exact h [] none none (SameScope.refl none) chain s p v hdeclares

end SaysNoMore

/-- A pass that drops nodes, but no selectors. -/
structure Drops (f : Kind → List Node → List Node) : Prop where
  selectors : ∀ kind nodes, selectorTexts (f kind nodes) = selectorTexts nodes
  subset : ∀ kind nodes, f kind nodes ⊆ nodes

/-- **Dropping nodes declares nothing new.** -/
theorem Drops.saysNoMore_rebuild {f : Kind → List Node → List Node} (hf : Drops f) (n : Node) :
    SaysNoMore (n.rebuild f).children n.children := by
  induction n using children_induction with
  | step n ih =>
    rw [children_rebuild]
    refine (SaysNoMore.of_subset (hf.subset _ _)).trans (SaysNoMore.map fun c hc => ?_)
    refine SaysNoMore.node (kind_rebuild f c) (properties_rebuild f c) (fun text => ?_) ?_ (ih c hc)
    · rw [children_rebuild, hf.selectors, (keepsHead_rebuild f).selectorTexts_map]
    · rw [children_rebuild, ← (keepsHead_rebuild f).declarationPairs_map c.children]
      intro pair hpair
      obtain ⟨m, hm, rfl⟩ := List.mem_map.1 hpair
      obtain ⟨hmem, hkind⟩ := List.mem_filter.1 hm
      exact List.mem_map_of_mem (List.mem_filter.2 ⟨hf.subset _ _ hmem, hkind⟩)

theorem saysNoMore_tidy (n : Node) : SaysNoMore n.tidy.children n.children :=
  (Drops.saysNoMore_rebuild
    ⟨keeps_dropEmptyBlocks.selectors, fun _ _ => List.filter_sublist.subset⟩ _).trans
    (Drops.saysNoMore_rebuild
      ⟨keeps_dropEmptyDeclarations.selectors, fun _ _ => List.filter_sublist.subset⟩ n)

theorem saysNoMore_keepLastDeclarations (n : Node) :
    SaysNoMore n.keepLastDeclarations.children n.children :=
  Drops.saysNoMore_rebuild
    ⟨keeps_keepLastDeclarations.selectors, fun kind nodes => (keepLast_rule_sublist kind nodes).subset⟩
    n

/-! ## The same is said -/

/-- Wherever they stand, some nodes declare what other ones do. -/
def SaysSame (a b : List Node) : Prop := SaysNoMore a b ∧ SaysNoMore b a

namespace SaysSame

variable {a a' b b' c : List Node} {n n' : Node}

theorem refl (a : List Node) : SaysSame a a := ⟨SaysNoMore.refl a, SaysNoMore.refl a⟩

theorem trans (hab : SaysSame a b) (hbc : SaysSame b c) : SaysSame a c :=
  ⟨hab.1.trans hbc.1, hbc.2.trans hab.2⟩

theorem append (ha : SaysSame a a') (hb : SaysSame b b') : SaysSame (a ++ b) (a' ++ b') :=
  ⟨ha.1.append hb.1, ha.2.append hb.2⟩

theorem of_perm (h : a.Perm b) : SaysSame a b :=
  ⟨SaysNoMore.of_subset h.subset, SaysNoMore.of_subset h.symm.subset⟩

theorem map {F : Node → Node} {nodes : List Node} (h : ∀ n ∈ nodes, SaysSame [F n] [n]) :
    SaysSame (nodes.map F) nodes :=
  ⟨SaysNoMore.map (fun n hn => (h n hn).1),
    SaysNoMore.of_forall (fun n hn => SaysNoMore.of_mem (List.mem_map_of_mem hn) (h n hn).2)⟩

theorem node (hkind : n'.kind = n.kind) (hproperties : n'.properties = n.properties)
    (hselectors : ∀ text, text ∈ selectorTexts n'.children ↔ text ∈ selectorTexts n.children)
    (hpairs : ∀ pair, pair ∈ declarationPairs n'.children ↔ pair ∈ declarationPairs n.children)
    (h : SaysSame n'.children n.children) : SaysSame [n'] [n] :=
  ⟨SaysNoMore.node hkind hproperties hselectors (fun pair => (hpairs pair).1) h.1,
    SaysNoMore.node hkind.symm hproperties.symm (fun text => (hselectors text).symm)
      (fun pair => (hpairs pair).2) h.2⟩

/-- A flat rule in the place of two others declares for its selectors what each of the two does for
    its own. -/
theorem of_flat {a b : Node} (hn : n.isFlatRule = true) (ha : a.isFlatRule = true)
    (hb : b.isFlatRule = true)
    (h : ∀ scope s pair,
      (covers (some (resolveSelectors scope (selectorTexts n.children))) s = true ∧
        pair ∈ declarationPairs n.children) ↔
      (covers (some (resolveSelectors scope (selectorTexts a.children))) s = true ∧
        pair ∈ declarationPairs a.children) ∨
      covers (some (resolveSelectors scope (selectorTexts b.children))) s = true ∧
        pair ∈ declarationPairs b.children) : SaysSame [n] [a, b] := by
  have hsame : ∀ chain scope c s p v, Declares (settingsAll chain scope [n]) c s p v ↔
      Declares (settingsAll chain scope [a, b]) c s p v := by
    intro chain scope c s p v
    simp only [settingsAll, List.append_nil, declares_append]
    rw [declares_flatRule hn, declares_flatRule ha, declares_flatRule hb, h, and_or_left]
  constructor
  · intro chain scope scope' hscope c s p v hdeclares
    exact SaysNoMore.refl [a, b] chain scope scope' hscope c s p v ((hsame ..).1 hdeclares)
  · intro chain scope scope' hscope c s p v hdeclares
    exact SaysNoMore.refl [n] chain scope scope' hscope c s p v ((hsame ..).2 hdeclares)

end SaysSame

/-- A pass that moves declarations and selectors between nodes but loses none. -/
structure Rearranges (f : Kind → List Node → List Node) : Prop where
  selectors : ∀ kind nodes text,
    text ∈ selectorTexts (f kind nodes) ↔ text ∈ selectorTexts nodes
  pairs : ∀ kind nodes, declarationPairs (f kind nodes) = declarationPairs nodes
  nodes : ∀ kind nodes, SaysSame (f kind nodes) nodes

/-- **Rearranging declares the same.** -/
theorem Rearranges.saysSame_rebuild {f : Kind → List Node → List Node} (hf : Rearranges f)
    (n : Node) : SaysSame (n.rebuild f).children n.children := by
  induction n using children_induction with
  | step n ih =>
    rw [children_rebuild]
    refine (hf.nodes _ _).trans (SaysSame.map fun c hc => ?_)
    refine SaysSame.node (kind_rebuild f c) (properties_rebuild f c) (fun text => ?_)
      (fun pair => ?_) (ih c hc)
    · rw [children_rebuild, hf.selectors, (keepsHead_rebuild f).selectorTexts_map]
    · rw [children_rebuild, hf.pairs, (keepsHead_rebuild f).declarationPairs_map]

/-! ### Merging rules -/

section Fold

variable {alike : Node → Node → Bool} {absorb : Node → Node → Node}

theorem saysSame_foldStep
    (hstep : ∀ a b, takes alike a b = true → SaysSame [absorb a b] [a, b]) (kept : List Node)
    (n : Node) : SaysSame (foldStep alike absorb kept n) (kept ++ [n]) := by
  induction kept with
  | nil =>
    have hfirst : foldStep alike absorb [] n = [n] := by
      unfold foldStep
      split <;> rfl
    exact hfirst ▸ SaysSame.refl [n]
  | cons a rest ih =>
    rw [foldStep_cons]
    split
    · next htakes =>
      exact ((hstep a n htakes).append (SaysSame.refl rest)).trans
        (SaysSame.of_perm ((List.perm_append_singleton n rest).symm.cons a))
    · exact (SaysSame.refl [a]).append ih

/-- Folding rules declares the same if taking one rule does. -/
theorem saysSame_foldRules
    (hstep : ∀ a b, takes alike a b = true → SaysSame [absorb a b] [a, b]) (nodes : List Node) :
    SaysSame (foldRules alike absorb nodes) nodes := by
  have hfold : ∀ kept, SaysSame (nodes.foldl (foldStep alike absorb) kept) (kept ++ nodes) := by
    induction nodes with
    | nil => exact fun kept => (List.append_nil kept).symm ▸ SaysSame.refl kept
    | cons n rest ih =>
      intro kept
      have hone := (saysSame_foldStep hstep kept n).append (SaysSame.refl rest)
      rw [List.append_assoc] at hone
      exact (ih _).trans hone
  exact hfold []

theorem declarationPairs_eq_filterMap (nodes : List Node) :
    declarationPairs nodes = nodes.filterMap (fun n =>
      if n.kind = .declaration then some (n.prop propertyKey, n.prop valueKey) else none) := by
  rw [declarationPairs, ← List.filterMap_eq_map, List.filterMap_filter]
  congr 1
  funext n
  by_cases h : n.kind = .declaration <;> simp [h]

theorem rearranges_foldRules (h : Absorbs alike absorb)
    (hstep : ∀ a b, takes alike a b = true → SaysSame [absorb a b] [a, b]) :
    Rearranges (fun kind nodes =>
      if mergesIn kind then foldRules alike absorb nodes else nodes) where
  selectors kind nodes text := by
    split
    · rw [selectorTexts_foldRules h]
    · exact Iff.rfl
  pairs kind nodes := by
    split
    · rw [declarationPairs_eq_filterMap, declarationPairs_eq_filterMap]
      exact filterMap_foldRules h _ (fun n hn => by rw [(isFlatRule_iff.1 hn).1]; rfl) nodes
    · rfl
  nodes kind nodes := by
    split
    · exact saysSame_foldRules hstep nodes
    · exact SaysSame.refl nodes

end Fold

theorem declarationPairs_absorbBody (a b : Node) :
    declarationPairs (absorbBody a b).children =
      declarationPairs a.children ++ declarationPairs b.children := by
  rw [children_absorbBody, declarationPairs_append]
  congr 1
  exact declarationPairs_filter _ _ (fun n hn => by simp [hn])

theorem saysSame_absorbBody {a b : Node} (h : takes sameSelectors a b = true) :
    SaysSame [absorbBody a b] [a, b] := by
  obtain ⟨ha, hb, hselectors⟩ := sameRule_iff.1 h
  refine SaysSame.of_flat (isFlatRule_absorbBody ha hb) ha hb (fun scope s pair => ?_)
  rw [selectorTexts_absorbBody, declarationPairs_absorbBody, List.mem_append, ← hselectors,
    and_or_left]

theorem mem_declarationPairs_of_sameDeclarations {a b : Node} (h : sameDeclarations a b = true)
    (pair : String × String) :
    pair ∈ declarationPairs a.children ↔ pair ∈ declarationPairs b.children := by
  simp only [sameDeclarations, Bool.and_eq_true, List.all_eq_true, List.contains_iff_mem] at h
  exact ⟨h.1.2 pair, h.2 pair⟩

theorem saysSame_absorbSelectors {a b : Node} (h : takes sameDeclarations a b = true) :
    SaysSame [absorbSelectors a b] [a, b] := by
  obtain ⟨ha, hb, hsame⟩ := takes_iff.1 h
  refine SaysSame.of_flat (isFlatRule_absorbSelectors ha b) ha hb (fun scope s pair => ?_)
  -- A selector of the one rule is taken for all that is declared in both.
  have hcovers : covers
      (some (resolveSelectors scope (selectorTexts (absorbSelectors a b).children))) s = true ↔
      covers (some (resolveSelectors scope (selectorTexts a.children))) s = true ∨
        covers (some (resolveSelectors scope (selectorTexts b.children))) s = true := by
    rw [covers_resolveSelectors, covers_resolveSelectors scope (selectorTexts a.children),
      covers_resolveSelectors scope (selectorTexts b.children)]
    simp only [mem_selectorTexts_absorbSelectors, or_and_right, exists_or]
  rw [hcovers, declarationPairs_absorbSelectors, ← mem_declarationPairs_of_sameDeclarations hsame,
    or_and_right]

theorem saysSame_coalesce (n : Node) : SaysSame n.coalesce.children n.children :=
  (rearranges_foldRules absorbs_absorbBody (fun _ _ => saysSame_absorbBody)).saysSame_rebuild n

theorem saysSame_mergeBodies (n : Node) : SaysSame n.mergeBodies.children n.children :=
  (rearranges_foldRules absorbs_absorbSelectors
    (fun _ _ => saysSame_absorbSelectors)).saysSame_rebuild n

/-! ### Repeated selectors -/

theorem mem_keepFirst (seen : List String) {nodes : List Node} {n : Node} (hn : n ∈ nodes)
    (hkind : n.kind ≠ .selector) : n ∈ keepFirst seen nodes := by
  induction nodes generalizing seen with
  | nil => cases hn
  | cons m rest ih =>
    rw [keepFirst]
    rcases List.mem_cons.1 hn with rfl | hn
    · rw [if_neg hkind]
      exact List.mem_cons_self
    · split
      · dsimp only
        split
        · exact ih seen hn
        · exact List.mem_cons_of_mem _ (ih _ hn)
      · exact List.mem_cons_of_mem _ (ih seen hn)

theorem declarationPairs_keepFirst (seen : List String) (nodes : List Node) :
    declarationPairs (keepFirst seen nodes) = declarationPairs nodes := by
  induction nodes generalizing seen with
  | nil => rfl
  | cons n rest ih =>
    have hcons : ∀ nodes : List Node,
        declarationPairs (n :: nodes) = declarationPairs [n] ++ declarationPairs nodes :=
      declarationPairs_append [n]
    rw [keepFirst]
    split
    · next hkind =>
      have hnone : declarationPairs [n] = [] := declarationPairs_eq_nil (by simp [hkind])
      dsimp only
      split
      · rw [ih, hcons, hnone, List.nil_append]
      · rw [hcons, ih, hcons rest]
    · rw [hcons, ih, hcons rest]

theorem saysSame_keepFirst (seen : List String) (nodes : List Node) :
    SaysSame (keepFirst seen nodes) nodes := by
  refine ⟨SaysNoMore.of_subset (keepFirst_sublist seen nodes).subset, ?_⟩
  apply SaysNoMore.of_forall
  intro n hn
  by_cases hkind : n.kind = .selector
  · -- A selector declares nothing, so it can go.
    intro chain scope scope' _ c s p v hdeclares
    rw [settingsAll, settingsAll, List.append_nil,
      declares_of_not_isBlock (by simp [isBlock, hkind]), hkind] at hdeclares
    cases hdeclares.2.1
  · exact SaysNoMore.of_mem (mem_keepFirst seen hn hkind) (SaysNoMore.self n)

theorem rearranges_keepFirst :
    Rearranges (fun kind nodes => if kind = .rule then keepFirst [] nodes else nodes) where
  selectors kind nodes text := by
    split
    · simpa using mem_selectorTexts_keepFirst [] nodes text
    · exact Iff.rfl
  pairs kind nodes := by
    split
    · exact declarationPairs_keepFirst [] nodes
    · rfl
  nodes kind nodes := by
    split
    · exact saysSame_keepFirst [] nodes
    · exact SaysSame.refl nodes

theorem saysSame_keepFirstSelectors (n : Node) :
    SaysSame n.keepFirstSelectors.children n.children :=
  rearranges_keepFirst.saysSame_rebuild n

/-! ## All passes together -/

/-- The merging passes declare nothing new. -/
theorem saysNoMore_mergeRules (n : Node) : SaysNoMore n.mergeRules.children n.children :=
  (saysSame_keepFirstSelectors _).1.trans ((saysSame_mergeBodies _).1.trans
    ((saysNoMore_keepLastDeclarations _).trans (saysSame_coalesce n).1))

theorem saysNoMore_reduce (level : Level) (n : Node) :
    SaysNoMore (n.reduce level).children n.children := by
  have htidy := saysNoMore_tidy n
  have hlast := (saysNoMore_keepLastDeclarations n.tidy).trans htidy
  cases level with
  | basic => exact htidy
  | advanced => exact hlast
  | aggressive => exact (saysNoMore_mergeRules _).trans hlast

end Theming.Sheet
