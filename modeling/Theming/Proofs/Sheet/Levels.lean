import Theming.Proofs.Sheet.Sizes

set_option autoImplicit false

/-! # A level contains the ones below it

The passes of the first two levels reach a normal form in one sweep: no declaration of nothing is
left below the top (`AllSet`), no block without content (`AllFilled`), and no rule sets a property
twice. A tree in normal form is rebuilt as it is (`rebuild_eq_self`).

Keeping the last declaration of each property leaves every block its content, so it does not undo
what tidying did. Hence a level finds the same tree whether or not a lower level was run before it
(`optimize_optimize`). -/

namespace Theming.Sheet

open Node

/-! ## Normal forms of rebuilding -/

namespace Node

variable {f : Kind → List Node → List Node}

mutual

/-- A tree whose lists of children are all left as they are is rebuilt as it is. -/
theorem rebuild_eq_self : ∀ n : Node, (∀ m ∈ n.preorder, f m.kind m.children = m.children) →
    n.rebuild f = n
  | .mk kind properties children => fun h => by
    have hchildren : rebuildAll f children = children :=
      rebuildAll_eq_self children (fun m hm => h m (List.mem_cons_of_mem _ hm))
    have htop : f kind children = children := h (.mk kind properties children) List.mem_cons_self
    rw [rebuild, hchildren, htop]
termination_by structural n => n

theorem rebuildAll_eq_self : ∀ nodes : List Node,
    (∀ m ∈ preorderAll nodes, f m.kind m.children = m.children) → rebuildAll f nodes = nodes
  | [] => fun _ => rfl
  | n :: rest => fun h => by
    rw [rebuildAll, rebuild_eq_self n (fun m hm => h m (List.mem_append_left _ hm)),
      rebuildAll_eq_self rest (fun m hm => h m (List.mem_append_right _ hm))]
termination_by structural nodes => nodes

end

/-- The nodes of a rebuilt tree are rebuilt nodes, if the pass adds none. -/
theorem exists_rebuild_of_mem_preorder (hsub : ∀ kind nodes, f kind nodes ⊆ nodes) {n m : Node}
    (hm : m ∈ (n.rebuild f).preorder) : ∃ m' : Node, m = m'.rebuild f := by
  induction n using children_induction with
  | step n ih =>
    rcases mem_preorder.1 hm with rfl | ⟨c, hc, hm⟩
    · exact ⟨n, rfl⟩
    · rw [children_rebuild] at hc
      obtain ⟨c', hc', rfl⟩ := List.mem_map.1 (hsub _ _ hc)
      exact ih c' hc' hm

/-- A pass that drops what it drops all at once has nothing to do the second time. -/
theorem rebuild_rebuild (hsub : ∀ kind nodes, f kind nodes ⊆ nodes)
    (hidem : ∀ kind nodes, f kind (f kind nodes) = f kind nodes) (n : Node) :
    (n.rebuild f).rebuild f = n.rebuild f := by
  refine rebuild_eq_self _ (fun m hm => ?_)
  obtain ⟨m', rfl⟩ := exists_rebuild_of_mem_preorder hsub hm
  rw [kind_rebuild, children_rebuild, hidem]

theorem mem_preorderAll_of_child {n m c : Node} (hm : m ∈ n.preorder) (hc : c ∈ m.children) :
    c ∈ preorderAll n.children := by
  induction n using children_induction with
  | step n ih =>
    rcases mem_preorder.1 hm with rfl | ⟨d, hd, hm⟩
    · exact mem_preorderAll.2 ⟨c, hc, self_mem_preorder c⟩
    · obtain ⟨e, he, hce⟩ := mem_preorderAll.1 (ih d hd hm)
      exact mem_preorderAll.2 ⟨d, hd, mem_preorder.2 (.inr ⟨e, he, hce⟩)⟩

/-- Dropping nodes by a test changes nothing if every node below the top passes it. -/
theorem rebuild_filter_eq_self {q : Node → Bool} {n : Node}
    (h : ∀ m ∈ preorderAll n.children, q m = true) :
    n.rebuild (fun _ nodes => nodes.filter q) = n :=
  rebuild_eq_self n (fun _ hm =>
    List.filter_eq_self.2 (fun c hc => h c (mem_preorderAll_of_child hm hc)))

end Node

/-! ## Blocks with content -/

/-- Every block below a node has content. -/
def AllFilled (n : Node) : Prop :=
  ∀ m ∈ preorderAll n.children, m.isBlock = true → m.hasContent = true

theorem allFilled_dropEmptyBlocks (n : Node) : AllFilled n.dropEmptyBlocks := by
  intro m hm hblock
  have htest := forall_below_rebuild_filter _ n m hm
  rwa [hblock, Bool.not_true, Bool.false_or] at htest

/-- Whether a node gives the block around it content. -/
def isContent (n : Node) : Bool := n.kind = .declaration || n.isBlock

theorem KeepsHead.any_isContent_map {F : Node → Node} (hF : KeepsHead F) (nodes : List Node) :
    (nodes.map F).any isContent = nodes.any isContent := by
  rw [List.any_map]
  congr 1
  funext n
  simp only [Function.comp_apply, isContent, hF.kind, hF.isBlock]

theorem hasContent_rebuild {f : Kind → List Node → List Node}
    (hcontent : ∀ kind nodes, (f kind nodes).any isContent = nodes.any isContent) (n : Node) :
    (n.rebuild f).hasContent = n.hasContent := by
  show (n.rebuild f).children.any isContent = n.children.any isContent
  rw [children_rebuild, hcontent, (keepsHead_rebuild f).any_isContent_map]

/-- A pass that adds no node and leaves every block content if it had some adds no block without
    content. -/
theorem allFilled_rebuild {f : Kind → List Node → List Node}
    (hsub : ∀ kind nodes, f kind nodes ⊆ nodes)
    (hcontent : ∀ kind nodes, (f kind nodes).any isContent = nodes.any isContent)
    {n : Node} (h : AllFilled n) : AllFilled (n.rebuild f) := by
  refine forall_below_rebuild hsub (fun m hm hblock => ?_) h
  rw [(keepsHead_rebuild f).isBlock] at hblock
  rw [hasContent_rebuild hcontent]
  exact hm hblock

/-- Of several declarations of one property, one is left. -/
theorem any_isContent_keepLast (nodes : List Node) :
    (keepLast nodes).any isContent = nodes.any isContent := by
  induction nodes with
  | nil => rfl
  | cons n rest ih =>
    rw [keepLast]
    split
    · next h =>
      obtain ⟨m, hm, hsame⟩ := List.any_eq_true.1 h
      have hkind := (setsProperty_iff.1 (setsSame_iff.1 hsame).2.1).1
      have hrest : rest.any isContent = true :=
        List.any_eq_true.2 ⟨m, hm, by simp [isContent, hkind]⟩
      rw [ih, List.any_cons, hrest, Bool.or_true]
    · rw [List.any_cons, List.any_cons, ih]

/-! ## Tidying -/

/-- A tree in normal form is tidy. -/
theorem tidy_eq_self {n : Node} (hset : AllSet n) (hfilled : AllFilled n) : n.tidy = n := by
  have hdeclarations : n.dropEmptyDeclarations = n :=
    rebuild_filter_eq_self (fun m hm => by rw [hset m hm, Bool.not_false])
  have hblocks : n.dropEmptyBlocks = n := by
    refine rebuild_filter_eq_self (fun m hm => ?_)
    cases hblock : m.isBlock with
    | false => rfl
    | true => rw [hfilled m hm hblock, Bool.not_true, Bool.false_or]
  rw [tidy, hdeclarations, hblocks]

theorem allFilled_tidy (n : Node) : AllFilled n.tidy := allFilled_dropEmptyBlocks _

theorem allFilled_keepLastDeclarations {n : Node} (h : AllFilled n) :
    AllFilled n.keepLastDeclarations := by
  refine allFilled_rebuild (fun kind nodes => (keepLast_rule_sublist kind nodes).subset)
    (fun kind nodes => ?_) h
  split
  · exact any_isContent_keepLast nodes
  · rfl

theorem tidy_tidy (n : Node) : n.tidy.tidy = n.tidy :=
  tidy_eq_self (allSet_tidy n) (allFilled_tidy n)

/-- Keeping the last declarations of a tidy tree leaves it tidy. -/
theorem tidy_keepLastDeclarations_tidy (n : Node) :
    n.tidy.keepLastDeclarations.tidy = n.tidy.keepLastDeclarations :=
  tidy_eq_self (allSet_keepLastDeclarations (allSet_tidy n))
    (allFilled_keepLastDeclarations (allFilled_tidy n))

/-! ## Keeping the last declarations -/

theorem keepLast_keepLast (nodes : List Node) : keepLast (keepLast nodes) = keepLast nodes := by
  induction nodes with
  | nil => rfl
  | cons n rest ih =>
    rw [keepLast]
    split
    · exact ih
    · next h =>
      -- Nothing that is left of the rest sets what `n` sets, since nothing in the rest does.
      have hnone : ¬(keepLast rest).any n.setsSame = true := fun hany => by
        obtain ⟨m, hm, hsame⟩ := List.any_eq_true.1 hany
        exact h (List.any_eq_true.2 ⟨m, (keepLast_sublist rest).subset hm, hsame⟩)
      rw [keepLast, if_neg hnone, ih]

theorem keepLastDeclarations_keepLastDeclarations (n : Node) :
    n.keepLastDeclarations.keepLastDeclarations = n.keepLastDeclarations := by
  refine rebuild_rebuild (fun kind nodes => (keepLast_rule_sublist kind nodes).subset)
    (fun kind nodes => ?_) n
  split
  · exact keepLast_keepLast nodes
  · rfl

/-! ## Levels -/

theorem keepLastDeclarations_tidy_idem (n : Node) :
    n.tidy.keepLastDeclarations.tidy.keepLastDeclarations = n.tidy.keepLastDeclarations := by
  rw [tidy_keepLastDeclarations_tidy, keepLastDeclarations_keepLastDeclarations]

/-- After a lower level, the passes of a higher one leave what they leave without it. -/
theorem reduce_reduce (n : Node) {low high : Level} (hlow : low ≠ .aggressive) (hle : low ≤ high) :
    (n.reduce low).reduce high = n.reduce high := by
  cases low with
  | aggressive => exact absurd rfl hlow
  | basic =>
    cases high with
    | basic => exact tidy_tidy n
    | advanced => exact congrArg keepLastDeclarations (tidy_tidy n)
    | aggressive =>
      exact congrArg (fun m => m.keepLastDeclarations.mergeRules) (tidy_tidy n)
  | advanced =>
    cases high with
    | basic => exact absurd hle (by decide)
    | advanced => exact keepLastDeclarations_tidy_idem n
    | aggressive => exact congrArg mergeRules (keepLastDeclarations_tidy_idem n)

/-- **A level contains the ones below it.** To run the basic or the advanced level before a level
    that is not below it makes no difference to the tree that comes out, whatever the tree that is
    in the arena. -/
theorem Arena.optimize_optimize (a : Arena) {low high : Level} (hlow : low ≠ .aggressive)
    (hle : low ≤ high) :
    ((a.optimize low).1.optimize high).1.toTree = (a.optimize high).1.toTree := by
  cases h : a.defect? with
  | some defect => rw [optimize_of_defect low h]
  | none =>
    have hlower := (size_optimize_of_valid low h).1
    rw [(optimize_of_valid high hlower).1, (optimize_of_valid low h).1,
      (optimize_of_valid high h).1, toTree_ofTree, toTree_ofTree, toTree_ofTree, reduce_reduce a.toTree hlow hle]

/-- A rule that sets a property twice and another one to nothing, with an empty block in it, and a
    rule behind it that sets the same. -/
def repeatedSheet : Node :=
  root [
    rule [selector ".a", declaration "top" "1", declaration "left" "", rule [selector "&:hover"],
      declaration "top" "2"],
    rule [selector ".b", declaration "top" "2"]]

/-- What the advanced level leaves of the first rule is merged with the second one, as it would be
    by the aggressive level alone. -/
theorem Arena.optimize_optimize_repeatedSheet :
    Level.advanced ≠ .aggressive ∧ Level.advanced ≤ .aggressive ∧
      (((Arena.ofTree repeatedSheet).optimize .advanced).1.optimize .aggressive).1.toTree =
        ((Arena.ofTree repeatedSheet).optimize .aggressive).1.toTree ∧
      ((Arena.ofTree repeatedSheet).optimize .aggressive).1.toTree =
        root [rule [selector ".a", selector ".b", declaration "top" "2"]] :=
  ⟨by decide, by decide, Arena.optimize_optimize _ (by decide) (by decide), by decide +kernel⟩

end Theming.Sheet
