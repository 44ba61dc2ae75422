import Theming.Proofs.Sheet.Cascade
import Theming.Sheet.Optimization

set_option autoImplicit false

/-! # Dropping nodes keeps the meaning

The basic and the advanced level only drop nodes: declarations of nothing, blocks without content,
and declarations that a later one in the same rule overrides. All three passes have one form, a
change of every list of children (`Node.rebuild`), so the proof has two halves. One is general: if
the change keeps the selectors, what the list says by itself and what is nested in it, rebuilding
the whole tree keeps its meaning (`Keeps.sameMeaning_rebuild`). The other shows that each pass is
such a change.

Dropping overridden declarations is one only where no blank value is left, since a blank value
overrides nothing; `allSet_tidy` provides that.

The main result is `optimize_sameMeaning`. -/

namespace Theming.Sheet

open Node

/-! ## Rebuilding -/

namespace Node

@[simp] theorem kind_rebuild (f : Kind → List Node → List Node) (n : Node) :
    (n.rebuild f).kind = n.kind := by
  cases n; rfl

@[simp] theorem properties_rebuild (f : Kind → List Node → List Node) (n : Node) :
    (n.rebuild f).properties = n.properties := by
  cases n; rfl

@[simp] theorem prop_rebuild (f : Kind → List Node → List Node) (n : Node) (key : String) :
    (n.rebuild f).prop key = n.prop key := by
  unfold prop; rw [properties_rebuild]

@[simp] theorem setsNothing_rebuild (f : Kind → List Node → List Node) (n : Node) :
    (n.rebuild f).setsNothing = n.setsNothing := by
  simp only [setsNothing, setsProperty, isStatement, kind_rebuild, prop_rebuild]

theorem rebuildAll_eq_map (f : Kind → List Node → List Node) (nodes : List Node) :
    rebuildAll f nodes = nodes.map (rebuild f) := by
  induction nodes with
  | nil => rfl
  | cons n rest ih => rw [rebuildAll, ih, List.map_cons]

theorem children_rebuild (f : Kind → List Node → List Node) (n : Node) :
    (n.rebuild f).children = f n.kind (n.children.map (rebuild f)) := by
  obtain ⟨kind, properties, children⟩ := n
  rw [rebuild, rebuildAll_eq_map]
  rfl

theorem mem_preorderAll {m : Node} {nodes : List Node} :
    m ∈ preorderAll nodes ↔ ∃ n ∈ nodes, m ∈ n.preorder := by
  induction nodes with
  | nil => simp [preorderAll]
  | cons n rest ih => rw [preorderAll, List.mem_append, ih]; simp

theorem self_mem_preorder (n : Node) : n ∈ n.preorder := by
  cases n; rw [preorder]; exact List.mem_cons_self

theorem mem_preorder {m n : Node} :
    m ∈ n.preorder ↔ m = n ∨ ∃ c ∈ n.children, m ∈ c.preorder := by
  obtain ⟨kind, properties, children⟩ := n
  rw [preorder, List.mem_cons, mem_preorderAll]
  rfl

theorem mem_preorder_iff_below {m n : Node} :
    m ∈ n.preorder ↔ m = n ∨ m ∈ preorderAll n.children := by
  rw [mem_preorder, mem_preorderAll]

/-- What holds of a node if it holds of its children holds of every node. -/
@[elab_as_elim]
theorem children_induction {P : Node → Prop} (step : ∀ n : Node, (∀ c ∈ n.children, P c) → P n) :
    ∀ n : Node, P n
  | .mk kind properties children =>
    step (.mk kind properties children) (fun c _hc => children_induction step c)
termination_by n => sizeOf n
decreasing_by
  have := List.sizeOf_lt_of_mem _hc
  simp only [children_mk] at this
  simp only [Node.mk.sizeOf_spec]
  omega

end Node

/-! ## Nodes below a node -/

namespace Node

variable {P : Node → Prop} {n : Node}

/-- What holds below a node holds of its children and below them. -/
theorem forall_below_iff :
    (∀ m ∈ preorderAll n.children, P m) ↔
      ∀ c ∈ n.children, P c ∧ ∀ m ∈ preorderAll c.children, P m := by
  simp only [mem_preorderAll]
  constructor
  · intro h c hc
    refine ⟨h c ⟨c, hc, self_mem_preorder c⟩, ?_⟩
    rintro m ⟨d, hd, hm⟩
    exact h m ⟨c, hc, mem_preorder.2 (Or.inr ⟨d, hd, hm⟩)⟩
  · rintro h m ⟨c, hc, hm⟩
    rcases mem_preorder.1 hm with rfl | ⟨d, hd, hmd⟩
    · exact (h m hc).1
    · exact (h c hc).2 m ⟨d, hd, hmd⟩

/-- A pass that adds no node keeps what holds below a node, if it keeps it of each node. -/
theorem forall_below_rebuild {f : Kind → List Node → List Node}
    (hsub : ∀ kind nodes, f kind nodes ⊆ nodes) (hP : ∀ m, P m → P (m.rebuild f))
    (h : ∀ m ∈ preorderAll n.children, P m) : ∀ m ∈ preorderAll (n.rebuild f).children, P m := by
  induction n using children_induction with
  | step n ih =>
    rw [forall_below_iff] at h ⊢
    intro c' hc'
    rw [children_rebuild] at hc'
    obtain ⟨c, hc, rfl⟩ := List.mem_map.1 (hsub _ _ hc')
    exact ⟨hP c (h c hc).1, ih c hc (h c hc).2⟩

/-- Where nodes are dropped by a test, every node that is left passes it. -/
theorem forall_below_rebuild_filter (q : Node → Bool) (n : Node) :
    ∀ m ∈ preorderAll (n.rebuild (fun _ nodes => nodes.filter q)).children, q m = true := by
  induction n using children_induction with
  | step n ih =>
    rw [forall_below_iff]
    intro c' hc'
    rw [children_rebuild, List.mem_filter] at hc'
    obtain ⟨hmem, htest⟩ := hc'
    obtain ⟨c, hc, rfl⟩ := List.mem_map.1 hmem
    exact ⟨htest, ih c hc⟩

end Node

/-! ## Properties of all nodes -/

/-- A property of each node of a tree. -/
def Everywhere (P : Node → Prop) (n : Node) : Prop := ∀ m ∈ n.preorder, P m

section

variable {P Q : Node → Prop} {n : Node}

theorem everywhere_iff : Everywhere P n ↔ P n ∧ ∀ c ∈ n.children, Everywhere P c := by
  unfold Everywhere
  simp only [mem_preorder (n := n), forall_eq_or_imp, forall_exists_index, and_imp]
  exact and_congr_right fun _ => ⟨fun h c hc m hm => h m c hc hm, fun h m c hc hm => h c hc m hm⟩

theorem Everywhere.self (h : Everywhere P n) : P n := (everywhere_iff.1 h).1

theorem Everywhere.child {c : Node} (h : Everywhere P n) (hc : c ∈ n.children) : Everywhere P c :=
  (everywhere_iff.1 h).2 c hc

/-- A pass brings about a property of all nodes if it does so for a node above nodes that have it, and
    keeps it in lists of children. -/
theorem everywhere_rebuild {f : Kind → List Node → List Node}
    (hlist : ∀ kind nodes, (∀ c ∈ nodes, Everywhere Q c) → ∀ c ∈ f kind nodes, Everywhere Q c)
    (hself : ∀ m, P m → Q (m.rebuild f)) (h : Everywhere P n) : Everywhere Q (n.rebuild f) := by
  induction n using children_induction with
  | step n ih =>
    refine everywhere_iff.2 ⟨hself n h.self, ?_⟩
    rw [children_rebuild]
    apply hlist
    intro c' hc'
    obtain ⟨c, hc, rfl⟩ := List.mem_map.1 hc'
    exact ih c hc (h.child hc)

end

/-! ## Changes below nodes

Most of what is asked about a list of nodes concerns their kinds and named texts only, and does not
change with what is below them. -/

/-- A change of nodes that leaves their kinds and named texts alone. -/
def KeepsHead (F : Node → Node) : Prop :=
  ∀ n, (F n).kind = n.kind ∧ (F n).properties = n.properties

theorem keepsHead_rebuild (f : Kind → List Node → List Node) : KeepsHead (rebuild f) :=
  fun n => ⟨kind_rebuild f n, properties_rebuild f n⟩

namespace KeepsHead

variable {F G : Node → Node}

theorem kind (hF : KeepsHead F) (n : Node) : (F n).kind = n.kind := (hF n).1

theorem prop (hF : KeepsHead F) (n : Node) (key : String) : (F n).prop key = n.prop key := by
  unfold Node.prop; rw [(hF n).2]

theorem comp (hF : KeepsHead F) (hG : KeepsHead G) : KeepsHead (fun n => F (G n)) :=
  fun n => ⟨(hF (G n)).1.trans (hG n).1, (hF (G n)).2.trans (hG n).2⟩

theorem selectorTexts_map (hF : KeepsHead F) (nodes : List Node) :
    selectorTexts (nodes.map F) = selectorTexts nodes := by
  unfold selectorTexts
  rw [List.filter_map, List.map_map]
  simp only [Function.comp_def, hF.kind, hF.prop]

theorem ownSettings_map (hF : KeepsHead F) (chain : Chain) (within : Option (List String))
    (nodes : List Node) :
    ownSettings chain within (nodes.map F) = ownSettings chain within nodes := by
  unfold ownSettings
  rw [List.filter_map, List.map_map]
  simp only [Function.comp_def, hF.kind, hF.prop]

end KeepsHead

/-! ## Changes that keep the meaning -/

/-- A change of lists of children that keeps their meaning, where the nodes in the list satisfy
    `ok`. Rules are only looked at from the inside, that is, under selectors. -/
structure Keeps (ok : Node → Prop) (f : Kind → List Node → List Node) : Prop where
  selectors : ∀ kind nodes, selectorTexts (f kind nodes) = selectorTexts nodes
  own : ∀ kind nodes chain within, (∀ m ∈ nodes, ok m) →
    SameMeaning (ownSettings chain within (f kind nodes)) (ownSettings chain within nodes)
  nested : ∀ kind nodes chain scope, (kind = .rule → scope.isSome) →
    SameMeaning (settingsAll chain scope (f kind nodes)) (settingsAll chain scope nodes)
  ok_rebuild : ∀ n, ok n → ok (n.rebuild f)

namespace Keeps

variable {ok : Node → Prop} {f : Kind → List Node → List Node}

theorem own_map (hf : Keeps ok f) (kind : Kind) (nodes : List Node) (chain : Chain)
    (within : Option (List String)) (hok : ∀ m ∈ nodes, ok m) :
    SameMeaning (ownSettings chain within (f kind (nodes.map (rebuild f))))
      (ownSettings chain within nodes) := by
  have hmap : ∀ m ∈ nodes.map (rebuild f), ok m := by
    intro m hm
    obtain ⟨n, hn, rfl⟩ := List.mem_map.1 hm
    exact hf.ok_rebuild n (hok n hn)
  have h := hf.own kind (nodes.map (rebuild f)) chain within hmap
  rwa [(keepsHead_rebuild f).ownSettings_map] at h

mutual

theorem sameMeaning_rebuild (hf : Keeps ok f) :
    ∀ (n : Node) (chain : Chain) (scope : Option (List String)), (∀ m ∈ n.preorder, ok m) →
      SameMeaning ((n.rebuild f).settings chain scope) (n.settings chain scope)
  | .mk kind properties children, chain, scope, hok => by
    have hbelow : ∀ m ∈ preorderAll children, ok m := fun m hm =>
      hok m (List.mem_cons_of_mem _ hm)
    have htop : ∀ m ∈ children, ok m := fun m hm =>
      hbelow m (mem_preorderAll.2 ⟨m, hm, self_mem_preorder m⟩)
    have hnested : ∀ chain scope, (kind = .rule → scope.isSome) →
        SameMeaning (settingsAll chain scope (f kind (children.map (rebuild f))))
          (settingsAll chain scope children) := fun chain scope hs =>
      (hf.nested kind _ chain scope hs).trans (sameMeaning_map hf children chain scope hbelow)
    rw [rebuild, rebuildAll_eq_map]
    -- A block says its own declarations before those of the blocks below it.
    cases kind with
    | rule =>
      simp only [settings, hf.selectors, (keepsHead_rebuild f).selectorTexts_map]
      exact (hf.own_map .rule children _ _ htop).append (hnested _ _ (fun _ => rfl))
    | condition =>
      simp only [settings]
      refine SameMeaning.append ?_ (hnested _ _ (fun h => by cases h))
      cases scope with
      | none => exact SameMeaning.refl _
      | some selectors => exact hf.own_map .condition children _ _ htop
    | declaration => exact SameMeaning.refl _
    | root => exact SameMeaning.refl _
    | selector => exact SameMeaning.refl _
    | comment => exact SameMeaning.refl _
termination_by structural n => n

theorem sameMeaning_map (hf : Keeps ok f) :
    ∀ (nodes : List Node) (chain : Chain) (scope : Option (List String)),
      (∀ m ∈ preorderAll nodes, ok m) →
      SameMeaning (settingsAll chain scope (nodes.map (rebuild f))) (settingsAll chain scope nodes)
  | [], chain, scope, _ => SameMeaning.refl _
  | n :: rest, chain, scope, hok => by
    rw [List.map_cons, settingsAll, settingsAll]
    rw [preorderAll] at hok
    exact (sameMeaning_rebuild hf n chain scope
      (fun m hm => hok m (List.mem_append_left _ hm))).append
        (sameMeaning_map hf rest chain scope (fun m hm => hok m (List.mem_append_right _ hm)))
termination_by structural nodes => nodes

end

/-- Rebuilding a whole tree keeps what its stylesheet says. -/
theorem sameMeaning_tree (hf : Keeps ok f) (dropComments : Bool) (tree : Node)
    (hroot : tree.kind = .root) (hok : ∀ m ∈ preorderAll tree.children, ok m) :
    SameMeaning (settingsOf dropComments (tree.rebuild f)) (settingsOf dropComments tree) := by
  rw [settingsOf_eq, settingsOf_eq, children_rebuild]
  exact (hf.nested _ _ _ _ (fun h => by rw [hroot] at h; cases h)).trans
    (sameMeaning_map hf tree.children [] none hok)

end Keeps

/-! ## Dropping by a test -/

theorem settingsAll_filter (q : Node → Bool) (chain : Chain) (scope : Option (List String))
    (hq : ∀ n, q n = false → SameMeaning (n.settings chain scope) []) (nodes : List Node) :
    SameMeaning (settingsAll chain scope (nodes.filter q)) (settingsAll chain scope nodes) := by
  induction nodes with
  | nil => exact SameMeaning.refl _
  | cons n rest ih =>
    rw [settingsAll]
    cases hn : q n with
    | true =>
      rw [List.filter_cons_of_pos hn, settingsAll]
      exact (SameMeaning.refl _).append ih
    | false =>
      rw [List.filter_cons_of_neg (by simp [hn])]
      exact ((hq n hn).symm.append ih)

theorem selectorTexts_filter (q : Node → Bool) (nodes : List Node)
    (hq : ∀ n, n.kind = .selector → q n = true) :
    selectorTexts (nodes.filter q) = selectorTexts nodes := by
  unfold selectorTexts
  rw [List.filter_filter]
  congr 1
  apply List.filter_congr
  intro n _
  by_cases hk : n.kind = .selector
  · simp [hk, hq n hk]
  · simp [hk]

/-! ## Declarations of nothing -/

theorem sameMeaning_blank (chain : Chain) (within : Option (List String)) (n : Node)
    (hn : n.setsNothing = true) : SameMeaning (ownSettings chain within [n]) [] := by
  simp only [setsNothing, setsProperty, isStatement, Bool.and_eq_true, decide_eq_true_eq,
    Bool.not_eq_true'] at hn
  obtain ⟨⟨hkind, hat⟩, hblank⟩ := hn
  have hown : ownSettings chain within [n] =
      [⟨chain, within, n.prop propertyKey, n.prop valueKey⟩] := by
    simp [ownSettings, hkind]
  rw [hown]
  constructor
  · intro chain' s p _
    simp [lastValue, Setting.gives, hblank]
  · intro chain' within'
    simp [statementsAt, Setting.isStatementAt, hat]

theorem settings_declaration (chain : Chain) (n : Node) (hk : n.kind = .declaration) :
    n.settings chain none = ownSettings chain none [n] := by
  obtain ⟨kind, properties, children⟩ := n
  cases hk
  rfl

theorem settings_declaration_inside (chain : Chain) (selectors : List String) (n : Node)
    (hk : n.kind = .declaration) : n.settings chain (some selectors) = [] := by
  obtain ⟨kind, properties, children⟩ := n
  cases hk
  rfl

theorem keeps_dropEmptyDeclarations :
    Keeps (fun _ => True) (fun _ children => children.filter (fun m => !m.setsNothing)) where
  selectors _ nodes := by
    apply selectorTexts_filter
    intro n hk
    simp [setsNothing, setsProperty, hk]
  own _ nodes chain within _ := by
    induction nodes with
    | nil => exact SameMeaning.refl _
    | cons n rest ih =>
      rw [ownSettings_cons _ _ n rest]
      cases hn : n.setsNothing with
      | false =>
        rw [List.filter_cons_of_pos (by simp [hn]), ownSettings_cons]
        exact (SameMeaning.refl _).append (ih (fun _ _ => trivial))
      | true =>
        rw [List.filter_cons_of_neg (by simp [hn])]
        exact (sameMeaning_blank chain within n hn).symm.append (ih (fun _ _ => trivial))
  nested _ nodes chain scope _ := by
    apply settingsAll_filter
    intro n hn
    have hnothing : n.setsNothing = true := by simpa using hn
    have hk : n.kind = .declaration := by
      simp only [setsNothing, setsProperty, Bool.and_eq_true, decide_eq_true_eq] at hnothing
      exact hnothing.1.1
    cases scope with
    | none => rw [settings_declaration chain n hk]; exact sameMeaning_blank chain none n hnothing
    | some selectors => exact SameMeaning.of_eq (settings_declaration_inside chain selectors n hk)
  ok_rebuild _ _ := trivial

/-- Every declaration below a node that is no statement has a value that is not blank. -/
def AllSet (n : Node) : Prop := ∀ m ∈ preorderAll n.children, m.setsNothing = false

theorem allSet_iff (n : Node) :
    AllSet n ↔ ∀ c ∈ n.children, c.setsNothing = false ∧ AllSet c := forall_below_iff

/-- A pass that adds no node adds no declaration of nothing. -/
theorem allSet_rebuild {f : Kind → List Node → List Node}
    (hsub : ∀ kind nodes, f kind nodes ⊆ nodes) {n : Node} (h : AllSet n) :
    AllSet (n.rebuild f) :=
  forall_below_rebuild hsub (fun m hm => (setsNothing_rebuild f m).trans hm) h

theorem allSet_dropEmptyDeclarations (n : Node) : AllSet n.dropEmptyDeclarations := by
  intro m hm
  simpa using forall_below_rebuild_filter _ n m hm

/-! ## Blocks without content -/

theorem settingsAll_eq_nil (chain : Chain) (scope : Option (List String)) (nodes : List Node)
    (h : ∀ m ∈ nodes, m.settings chain scope = []) : settingsAll chain scope nodes = [] := by
  induction nodes with
  | nil => rfl
  | cons n rest ih =>
    rw [settingsAll, h n List.mem_cons_self, ih (fun m hm => h m (List.mem_cons_of_mem _ hm))]
    rfl

theorem ownSettings_eq_nil (chain : Chain) (within : Option (List String)) (nodes : List Node)
    (h : ∀ m ∈ nodes, m.kind ≠ .declaration) : ownSettings chain within nodes = [] := by
  unfold ownSettings
  rw [List.filter_eq_nil_iff.2 (fun m hm => by simpa using h m hm)]
  rfl

/-- A block without content says nothing. -/
theorem settings_of_not_hasContent (chain : Chain) (scope : Option (List String)) (n : Node)
    (hblock : n.isBlock = true) (hn : n.hasContent = false) : n.settings chain scope = [] := by
  obtain ⟨kind, properties, children⟩ := n
  have hchild : ∀ m ∈ children, m.kind ≠ .declaration ∧ m.isBlock = false := by
    intro m hm
    have := List.any_eq_false.1 hn m hm
    simpa [Bool.or_eq_true] using this
  have hown : ∀ chain within, ownSettings chain within children = [] := fun chain within =>
    ownSettings_eq_nil chain within children (fun m hm => (hchild m hm).1)
  -- What is left below is selectors and comments.
  have hall : ∀ chain scope, settingsAll chain scope children = [] := by
    intro chain scope
    apply settingsAll_eq_nil
    intro m hm
    obtain ⟨hdecl, hblock⟩ := hchild m hm
    obtain ⟨kind, properties, children⟩ := m
    cases kind with
    | declaration => exact absurd rfl hdecl
    | rule => simp [isBlock] at hblock
    | condition => simp [isBlock] at hblock
    | root => rfl
    | selector => rfl
    | comment => rfl
  cases kind with
  | rule => simp only [settings, hown, hall, List.append_nil]
  | condition =>
    simp only [settings, hall, List.append_nil]
    cases scope with
    | none => rfl
    | some selectors => exact hown _ _
  | declaration => simp [isBlock] at hblock
  | root => rfl
  | selector => rfl
  | comment => rfl

theorem keeps_dropEmptyBlocks :
    Keeps (fun _ => True)
      (fun _ children => children.filter (fun m => !m.isBlock || m.hasContent)) where
  selectors _ nodes := by
    apply selectorTexts_filter
    intro n hk
    simp [isBlock, hk]
  own _ nodes chain within _ := by
    apply SameMeaning.of_eq
    unfold ownSettings
    rw [List.filter_filter]
    congr 1
    apply List.filter_congr
    intro n _
    by_cases hk : n.kind = .declaration <;> simp [hk, isBlock]
  nested _ nodes chain scope _ := by
    apply settingsAll_filter
    intro n hn
    simp only [Bool.or_eq_false_iff, Bool.not_eq_false'] at hn
    exact SameMeaning.of_eq (settings_of_not_hasContent chain scope n hn.1 hn.2)
  ok_rebuild _ _ := trivial

/-! ## Overridden declarations -/

theorem setsSame_iff {n m : Node} :
    n.setsSame m = true ↔
      n.setsProperty = true ∧ m.setsProperty = true ∧ n.prop propertyKey = m.prop propertyKey := by
  simp only [setsSame, Bool.and_eq_true, beq_iff_eq, and_assoc]

theorem setsProperty_iff {n : Node} :
    n.setsProperty = true ↔
      n.kind = .declaration ∧ Text.headIs '@' (n.prop propertyKey) = false := by
  simp only [setsProperty, isStatement, Bool.and_eq_true, decide_eq_true_eq, Bool.not_eq_true']

/-- A later declaration with a value overrides whatever the same property was set to before. -/
theorem lastValue_isSome_of_setsSame (chain : Chain) (within : Option (List String)) (n : Node)
    (rest : List Node) (hset : ∀ m ∈ rest, m.setsNothing = false)
    (h : rest.any n.setsSame = true) (selector : Option String) (c : Chain)
    (hgives : Setting.gives c selector (n.prop propertyKey)
      ⟨chain, within, n.prop propertyKey, n.prop valueKey⟩ = true) :
    (lastValue c selector (n.prop propertyKey) (ownSettings chain within rest)).isSome := by
  obtain ⟨m, hm, hsame⟩ := List.any_eq_true.1 h
  obtain ⟨_, hmset, hprop⟩ := setsSame_iff.1 hsame
  have hmkind := (setsProperty_iff.1 hmset).1
  have hvalue : Text.allBlank (m.prop valueKey) = false := by
    have := hset m hm
    simpa [setsNothing, hmset] using this
  rw [lastValue, List.getLast?_isSome]
  simp only [Setting.gives, Bool.and_eq_true, beq_iff_eq] at hgives
  obtain ⟨⟨⟨hchain, hfor⟩, _⟩, _⟩ := hgives
  -- The setting of `m` counts wherever the one of `n` does.
  apply List.ne_nil_of_mem (a := m.prop valueKey)
  rw [List.mem_map]
  refine ⟨⟨chain, within, m.prop propertyKey, m.prop valueKey⟩, ?_, rfl⟩
  rw [List.mem_filter]
  constructor
  · unfold ownSettings
    rw [List.mem_map]
    exact ⟨m, List.mem_filter.2 ⟨hm, by simp [hmkind]⟩, rfl⟩
  · simp only [Setting.gives, Bool.and_eq_true, beq_iff_eq, Bool.not_eq_true']
    exact ⟨⟨⟨hchain, hfor⟩, hprop.symm⟩, hvalue⟩

theorem sameMeaning_keepLast (chain : Chain) (within : Option (List String)) (nodes : List Node)
    (hset : ∀ m ∈ nodes, m.setsNothing = false) :
    SameMeaning (ownSettings chain within (keepLast nodes)) (ownSettings chain within nodes) := by
  induction nodes with
  | nil => exact SameMeaning.refl _
  | cons n rest ih =>
    have hrest : ∀ m ∈ rest, m.setsNothing = false := fun m hm =>
      hset m (List.mem_cons_of_mem _ hm)
    rw [keepLast, ownSettings_cons _ _ n rest]
    by_cases h : rest.any n.setsSame = true
    · rw [if_pos h]
      obtain ⟨m, _, hsame⟩ := List.any_eq_true.1 h
      obtain ⟨hkind, hat⟩ := setsProperty_iff.1 (setsSame_iff.1 hsame).1
      have hown : ownSettings chain within [n] =
          [⟨chain, within, n.prop propertyKey, n.prop valueKey⟩] := by
        simp [ownSettings, hkind]
      refine (ih hrest).trans ⟨?_, ?_⟩
      · intro c s p hp
        rw [lastValue_append, hown]
        -- Either the dropped setting is none for `p`, or a later one comes after it.
        by_cases hgives : Setting.gives c s p
            ⟨chain, within, n.prop propertyKey, n.prop valueKey⟩ = true
        · have hpn : n.prop propertyKey = p := by
            simp only [Setting.gives, Bool.and_eq_true, beq_iff_eq] at hgives
            exact hgives.1.2
          subst hpn
          have hsome := lastValue_isSome_of_setsSame chain within n rest hrest h s c hgives
          obtain ⟨v, hv⟩ := Option.isSome_iff_exists.1 hsome
          rw [hv, Option.some_or]
        · have hnone : lastValue c s p
              [⟨chain, within, n.prop propertyKey, n.prop valueKey⟩] = none := by
            simp [lastValue, hgives]
          rw [hnone, Option.or_none]
      · intro c w
        rw [statementsAt_append, hown]
        simp [statementsAt, Setting.isStatementAt, hat]
    · rw [if_neg h, ownSettings_cons]
      exact (SameMeaning.refl _).append (ih hrest)

theorem keepLast_sublist (nodes : List Node) : (keepLast nodes).Sublist nodes := by
  induction nodes with
  | nil => exact List.Sublist.slnil
  | cons n rest ih =>
    rw [keepLast]
    split
    · exact ih.cons n
    · exact ih.cons_cons n

theorem keepLast_rule_sublist (kind : Kind) (nodes : List Node) :
    (if kind = .rule then keepLast nodes else nodes).Sublist nodes := by
  split
  · exact keepLast_sublist nodes
  · exact List.Sublist.refl _

theorem selectorTexts_keepLast (nodes : List Node) :
    selectorTexts (keepLast nodes) = selectorTexts nodes := by
  induction nodes with
  | nil => rfl
  | cons n rest ih =>
    rw [keepLast]
    split
    · next h =>
      obtain ⟨m, _, hsame⟩ := List.any_eq_true.1 h
      have hkind := (setsProperty_iff.1 (setsSame_iff.1 hsame).1).1
      rw [ih]
      simp [selectorTexts, hkind]
    · unfold selectorTexts at ih ⊢
      rw [List.filter_cons, List.filter_cons]
      split
      · rw [List.map_cons, List.map_cons, ih]
      · exact ih

/-- Under selectors, declarations are no part of what is nested. -/
theorem settingsAll_keepLast (chain : Chain) (selectors : List String) (nodes : List Node) :
    settingsAll chain (some selectors) (keepLast nodes) =
      settingsAll chain (some selectors) nodes := by
  induction nodes with
  | nil => rfl
  | cons n rest ih =>
    rw [keepLast]
    split
    · next h =>
      obtain ⟨m, _, hsame⟩ := List.any_eq_true.1 h
      have hkind := (setsProperty_iff.1 (setsSame_iff.1 hsame).1).1
      rw [settingsAll, settings_declaration_inside chain selectors n hkind, ih]
      rfl
    · rw [settingsAll, settingsAll, ih]

theorem keeps_keepLastDeclarations :
    Keeps (fun n => n.setsNothing = false)
      (fun kind children => if kind = .rule then keepLast children else children) where
  selectors kind nodes := by
    split
    · exact selectorTexts_keepLast nodes
    · rfl
  own kind nodes chain within hok := by
    split
    · exact sameMeaning_keepLast chain within nodes hok
    · exact SameMeaning.refl _
  nested kind nodes chain scope hscope := by
    split
    · next hk =>
      obtain ⟨selectors, rfl⟩ := Option.isSome_iff_exists.1 (hscope hk)
      exact SameMeaning.of_eq (settingsAll_keepLast chain selectors nodes)
    · exact SameMeaning.refl _
  ok_rebuild n hn := by rw [setsNothing_rebuild]; exact hn

/-! ## The basic and the advanced level -/

theorem allSet_tidy (n : Node) : AllSet n.tidy :=
  allSet_rebuild (fun _ _ => List.filter_sublist.subset) (allSet_dropEmptyDeclarations n)

theorem sameMeaning_tidy (dropComments : Bool) (tree : Node) (hroot : tree.kind = .root) :
    SameMeaning (settingsOf dropComments tree.tidy) (settingsOf dropComments tree) :=
  (keeps_dropEmptyBlocks.sameMeaning_tree dropComments tree.dropEmptyDeclarations
      (by unfold dropEmptyDeclarations; rw [kind_rebuild, hroot]) (fun _ _ => trivial)).trans
    (keeps_dropEmptyDeclarations.sameMeaning_tree dropComments tree hroot (fun _ _ => trivial))

theorem sameMeaning_keepLastDeclarations (dropComments : Bool) (tree : Node)
    (hroot : tree.kind = .root) (hset : AllSet tree) :
    SameMeaning (settingsOf dropComments tree.keepLastDeclarations)
      (settingsOf dropComments tree) :=
  keeps_keepLastDeclarations.sameMeaning_tree dropComments tree hroot hset

theorem kind_tidy (tree : Node) : tree.tidy.kind = tree.kind := by
  unfold tidy dropEmptyBlocks dropEmptyDeclarations
  rw [kind_rebuild, kind_rebuild]

theorem kind_of_defect?_eq_none {tree : Node} (h : tree.defect? = none) : tree.kind = .root := by
  by_cases hk : tree.kind = .root
  · exact hk
  · rw [defect?, if_pos hk] at h
    cases h

/-- The passes of the first two levels keep what a stylesheet says. -/
theorem sameMeaning_reduce (dropComments : Bool) (level : Level) (hlevel : level ≠ .aggressive)
    (tree : Node) (hroot : tree.kind = .root) :
    SameMeaning (settingsOf dropComments (tree.reduce level)) (settingsOf dropComments tree) := by
  have htidy := sameMeaning_tidy dropComments tree hroot
  cases level with
  | basic => exact htidy
  | advanced =>
    refine (sameMeaning_keepLastDeclarations dropComments tree.tidy ?_ (allSet_tidy tree)).trans
      htidy
    rw [kind_tidy, hroot]
  | aggressive => exact absurd rfl hlevel

/-- **The basic and the advanced level keep the meaning of a stylesheet.** Under all condition
    blocks, every property of every selector, and every property set outside of rules, keeps the
    last value that is not blank; and the at-statements of every block are the same, in the same
    order. -/
theorem optimize_sameMeaning (level : Level) (hlevel : level ≠ .aggressive) (dropComments : Bool)
    (tree : Node) :
    SameMeaning (settingsOf dropComments (optimize level tree).1)
      (settingsOf dropComments tree) := by
  unfold optimize
  cases hdefect : tree.defect? with
  | some defect => exact SameMeaning.refl _
  | none =>
    exact sameMeaning_reduce dropComments level hlevel tree (kind_of_defect?_eq_none hdefect)

/-- The advanced level on a rule that sets a property three times, once to nothing, and that holds a
    condition block: of the three, the second goes as blank and the first as overridden. -/
theorem optimize_sameMeaning_overridden :
    Level.advanced ≠ .aggressive ∧
      SameMeaning
        (settingsOf true (optimize .advanced (root [rule [selector ".a",
          declaration "color" "red", declaration "color" " ",
          condition "media" "print" [declaration "color" "black", rule [selector "&:hover"]],
          declaration "color" "blue"]])).1)
        (settingsOf true (root [rule [selector ".a",
          declaration "color" "red", declaration "color" " ",
          condition "media" "print" [declaration "color" "black", rule [selector "&:hover"]],
          declaration "color" "blue"]])) ∧
      settingsOf true (optimize .advanced (root [rule [selector ".a",
        declaration "color" "red", declaration "color" " ",
        condition "media" "print" [declaration "color" "black", rule [selector "&:hover"]],
        declaration "color" "blue"]])).1 =
        [⟨[], some [".a"], "color", "blue"⟩,
          ⟨[("media", "print")], some [".a"], "color", "black"⟩] :=
  ⟨by decide, optimize_sameMeaning .advanced (by decide) true _, by decide⟩

end Theming.Sheet
