import Theming.Proofs.Sheet.Arenas
import Theming.Proofs.Sheet.Merging

set_option autoImplicit false

/-! # The size of optimized trees

No pass leaves more nodes than it finds: most only drop nodes, and where rules are merged, the rule
that is left has no more nodes than the two together. So each level leaves no more nodes than the
one below it, and the figures of an optimization are exact (`optimize_figures`).

No pass puts a root below another node either, so a tree stays valid. -/

namespace Theming.Sheet

open Node

/-! ## Sizes of rebuilt trees -/

namespace Node

theorem size_eq (n : Node) : n.size = sizeAll n.children + 1 := by
  cases n; rfl

theorem sizeAll_eq_sum (nodes : List Node) : sizeAll nodes = (nodes.map size).sum := by
  induction nodes with
  | nil => rfl
  | cons n rest ih => rw [sizeAll, ih, List.map_cons, List.sum_cons]

theorem sizeAll_append (a b : List Node) : sizeAll (a ++ b) = sizeAll a + sizeAll b := by
  rw [sizeAll_eq_sum, sizeAll_eq_sum, sizeAll_eq_sum, List.map_append, List.sum_append_nat]

theorem sizeAll_le_of_sublist {a b : List Node} (h : a.Sublist b) : sizeAll a ≤ sizeAll b := by
  induction h with
  | slnil => exact Nat.le_refl _
  | cons n _ ih => exact Nat.le_trans ih (Nat.le_add_left _ _)
  | cons_cons n _ ih => exact Nat.add_le_add_left ih _

theorem length_le_sizeAll (nodes : List Node) : nodes.length ≤ sizeAll nodes := by
  induction nodes with
  | nil => exact Nat.le_refl _
  | cons n rest ih =>
    rw [sizeAll, size_eq, List.length_cons]
    omega

theorem sizeAll_filter_add (p : Node → Bool) (nodes : List Node) :
    sizeAll (nodes.filter p) + sizeAll (nodes.filter (fun n => !p n)) = sizeAll nodes := by
  have hperm := ((List.filter_append_perm p nodes).map size).sum_nat
  rw [List.map_append, List.sum_append_nat] at hperm
  rw [sizeAll_eq_sum, sizeAll_eq_sum, sizeAll_eq_sum, hperm]

mutual

theorem size_rebuild_le {f : Kind → List Node → List Node}
    (hf : ∀ kind nodes, sizeAll (f kind nodes) ≤ sizeAll nodes) :
    ∀ n : Node, (n.rebuild f).size ≤ n.size
  | .mk kind _ children =>
    Nat.succ_le_succ (Nat.le_trans (hf kind _) (sizeAll_rebuildAll_le hf children))
termination_by structural n => n

theorem sizeAll_rebuildAll_le {f : Kind → List Node → List Node}
    (hf : ∀ kind nodes, sizeAll (f kind nodes) ≤ sizeAll nodes) :
    ∀ nodes : List Node, sizeAll (rebuildAll f nodes) ≤ sizeAll nodes
  | [] => Nat.le_refl _
  | n :: rest => Nat.add_le_add (size_rebuild_le hf n) (sizeAll_rebuildAll_le hf rest)
termination_by structural nodes => nodes

end

/-! ## Sizes of merged rules -/

theorem size_absorbBody_le (a b : Node) : (absorbBody a b).size ≤ a.size + b.size := by
  have hbody := sizeAll_le_of_sublist
    (List.filter_sublist (l := b.children) (p := fun m => decide (m.kind ≠ .selector)))
  rw [size_eq, children_absorbBody, sizeAll_append, size_eq a, size_eq b]
  omega

/-- Every new selector is one of the other rule. -/
theorem length_newSelectors_le (a b : Node) : (newSelectors a b).length ≤ sizeAll b.children := by
  have hnew := List.length_filter_le
    (fun text => !(selectorTexts a.children).contains text) (selectorTexts b.children)
  have htexts : (selectorTexts b.children).length ≤ b.children.length := by
    rw [selectorTexts, List.length_map]
    exact List.length_filter_le _ _
  rw [newSelectors, List.length_map]
  exact Nat.le_trans hnew (Nat.le_trans htexts (length_le_sizeAll _))

theorem sizeAll_newSelectors (a b : Node) :
    sizeAll (newSelectors a b) = (newSelectors a b).length := by
  rw [newSelectors, sizeAll_eq_sum, List.map_map, List.length_map]
  induction (selectorTexts b.children).filter _ with
  | nil => rfl
  | cons text rest ih =>
    rw [List.map_cons, List.sum_cons, ih, List.length_cons, Nat.add_comm]
    rfl

theorem size_absorbSelectors_le (a b : Node) : (absorbSelectors a b).size ≤ a.size + b.size := by
  have hsplit := sizeAll_filter_add (fun m => decide (m.kind = .selector)) a.children
  have hnew := length_newSelectors_le a b
  simp only [← decide_not, ← ne_eq] at hsplit
  rw [size_eq, children_absorbSelectors, sizeAll_append, sizeAll_append, sizeAll_newSelectors,
    size_eq a, size_eq b]
  omega

theorem keepFirst_sublist (seen : List String) (nodes : List Node) :
    (keepFirst seen nodes).Sublist nodes := by
  induction nodes generalizing seen with
  | nil => exact .slnil
  | cons n rest ih =>
    rw [keepFirst]
    split
    · dsimp only
      split
      · exact (ih seen).cons n
      · exact (ih _).cons_cons n
    · exact (ih seen).cons_cons n

theorem keepFirst_rule_sublist (kind : Kind) (nodes : List Node) :
    (if kind = .rule then keepFirst [] nodes else nodes).Sublist nodes := by
  split
  · exact keepFirst_sublist [] nodes
  · exact List.Sublist.refl _

/-! ## Sizes after the passes -/

theorem size_mergeIn_le {alike : Node → Node → Bool} {absorb : Node → Node → Node}
    (h : Absorbs alike absorb) (hsize : ∀ a b, (absorb a b).size ≤ a.size + b.size) (n : Node) :
    (n.rebuild (fun kind nodes =>
      if mergesIn kind then foldRules alike absorb nodes else nodes)).size ≤ n.size := by
  refine size_rebuild_le (fun kind nodes => ?_) n
  split
  · rw [sizeAll_eq_sum, sizeAll_eq_sum]
    exact sum_foldRules_le h size (fun a b _ => hsize a b) nodes
  · exact Nat.le_refl _

theorem size_tidy_le (n : Node) : n.tidy.size ≤ n.size :=
  Nat.le_trans (size_rebuild_le (fun _ _ => sizeAll_le_of_sublist List.filter_sublist) _)
    (size_rebuild_le (fun _ _ => sizeAll_le_of_sublist List.filter_sublist) n)

theorem size_keepLastDeclarations_le (n : Node) : n.keepLastDeclarations.size ≤ n.size :=
  size_rebuild_le (fun kind nodes => sizeAll_le_of_sublist (keepLast_rule_sublist kind nodes)) n

theorem size_coalesce_le (n : Node) : n.coalesce.size ≤ n.size :=
  size_mergeIn_le absorbs_absorbBody size_absorbBody_le n

theorem size_mergeBodies_le (n : Node) : n.mergeBodies.size ≤ n.size :=
  size_mergeIn_le absorbs_absorbSelectors size_absorbSelectors_le n

theorem size_keepFirstSelectors_le (n : Node) : n.keepFirstSelectors.size ≤ n.size :=
  size_rebuild_le (fun kind nodes => sizeAll_le_of_sublist (keepFirst_rule_sublist kind nodes)) n

theorem size_mergeRules_le (n : Node) : n.mergeRules.size ≤ n.size :=
  Nat.le_trans (size_keepFirstSelectors_le _) (Nat.le_trans (size_mergeBodies_le _)
    (Nat.le_trans (size_keepLastDeclarations_le _) (size_coalesce_le n)))

theorem size_reduce_le (level : Level) (n : Node) : (n.reduce level).size ≤ n.size := by
  have htidy := size_tidy_le n
  have hlast := size_keepLastDeclarations_le n.tidy
  cases level with
  | basic => exact htidy
  | advanced => exact Nat.le_trans hlast htidy
  | aggressive => exact Nat.le_trans (size_mergeRules_le _) (Nat.le_trans hlast htidy)

end Node

/-! ## Roots in rebuilt trees -/

theorem noRoot_iff {nodes : List Node} : NoRoot nodes ↔ ∀ n ∈ nodes, NoRoot [n] := by
  induction nodes with
  | nil => exact ⟨fun _ _ hn => (by cases hn), fun _ => NoRoot.nil⟩
  | cons n rest ih => rw [noRoot_cons_iff, ih, List.forall_mem_cons]

theorem noRoot_node_iff {n : Node} : NoRoot [n] ↔ n.kind ≠ .root ∧ NoRoot n.children := by
  cases n; exact noRoot_mk_iff

theorem NoRoot.of_sublist {a b : List Node} (h : NoRoot b) (hsub : a.Sublist b) : NoRoot a :=
  noRoot_iff.2 (fun n hn => noRoot_iff.1 h n (hsub.subset hn))

mutual

theorem noRoot_rebuild {f : Kind → List Node → List Node}
    (hf : ∀ kind nodes, NoRoot nodes → NoRoot (f kind nodes)) :
    ∀ n : Node, NoRoot [n] → NoRoot [n.rebuild f]
  | .mk kind _ children => fun h => by
    obtain ⟨hkind, hchildren⟩ := noRoot_mk_iff.1 h
    exact noRoot_mk_iff.2 ⟨hkind, hf kind _ (noRoot_rebuildAll hf children hchildren)⟩
termination_by structural n => n

theorem noRoot_rebuildAll {f : Kind → List Node → List Node}
    (hf : ∀ kind nodes, NoRoot nodes → NoRoot (f kind nodes)) :
    ∀ nodes : List Node, NoRoot nodes → NoRoot (rebuildAll f nodes)
  | [] => fun h => h
  | n :: rest => fun h => by
    obtain ⟨hself, hrest⟩ := noRoot_cons_iff.1 h
    exact noRoot_cons_iff.2 ⟨noRoot_rebuild hf n hself, noRoot_rebuildAll hf rest hrest⟩
termination_by structural nodes => nodes

end

/-- A pass that brings in no root keeps a tree valid. -/
theorem defect?_rebuild {f : Kind → List Node → List Node}
    (hf : ∀ kind nodes, NoRoot nodes → NoRoot (f kind nodes)) {tree : Node}
    (h : tree.defect? = none) : (tree.rebuild f).defect? = none := by
  obtain ⟨hkind, hbelow⟩ := defect?_eq_none_iff.1 h
  refine defect?_eq_none_iff.2 ⟨(kind_rebuild f tree).trans hkind, ?_⟩
  rw [children_rebuild, ← rebuildAll_eq_map]
  exact hf _ _ (noRoot_rebuildAll hf _ hbelow)

theorem noRoot_absorbBody {a b : Node} (ha : NoRoot [a]) (hb : NoRoot [b]) :
    NoRoot [absorbBody a b] := by
  rw [noRoot_node_iff] at ha hb ⊢
  rw [children_absorbBody]
  exact ⟨(kind_withChildren _ _).trans_ne ha.1, ha.2.append (hb.2.of_sublist List.filter_sublist)⟩

theorem noRoot_absorbSelectors {a b : Node} (ha : NoRoot [a]) (_hb : NoRoot [b]) :
    NoRoot [absorbSelectors a b] := by
  rw [noRoot_node_iff] at ha ⊢
  rw [children_absorbSelectors]
  exact ⟨(kind_withChildren _ _).trans_ne ha.1, ((ha.2.of_sublist List.filter_sublist).append
    (noRoot_selectors _)).append (ha.2.of_sublist List.filter_sublist)⟩

theorem defect?_mergeIn {alike : Node → Node → Bool} {absorb : Node → Node → Node}
    (h : Absorbs alike absorb) (habsorb : ∀ a b, NoRoot [a] → NoRoot [b] → NoRoot [absorb a b])
    {tree : Node} (htree : tree.defect? = none) :
    (tree.rebuild (fun kind nodes =>
      if mergesIn kind then foldRules alike absorb nodes else nodes)).defect? = none := by
  refine defect?_rebuild (fun kind nodes hnodes => ?_) htree
  split
  · exact noRoot_iff.2 (forall_mem_foldRules h (P := fun n => NoRoot [n]) habsorb
      (noRoot_iff.1 hnodes))
  · exact hnodes

theorem defect?_tidy {tree : Node} (h : tree.defect? = none) : tree.tidy.defect? = none :=
  defect?_rebuild (fun _ _ hnodes => hnodes.of_sublist List.filter_sublist)
    (defect?_rebuild (fun _ _ hnodes => hnodes.of_sublist List.filter_sublist) h)

theorem defect?_keepLastDeclarations {tree : Node} (h : tree.defect? = none) :
    tree.keepLastDeclarations.defect? = none :=
  defect?_rebuild
    (fun kind nodes hnodes => hnodes.of_sublist (keepLast_rule_sublist kind nodes)) h

theorem defect?_keepFirstSelectors {tree : Node} (h : tree.defect? = none) :
    tree.keepFirstSelectors.defect? = none :=
  defect?_rebuild
    (fun kind nodes hnodes => hnodes.of_sublist (keepFirst_rule_sublist kind nodes)) h

theorem defect?_mergeRules {tree : Node} (h : tree.defect? = none) :
    tree.mergeRules.defect? = none :=
  defect?_keepFirstSelectors (defect?_mergeIn absorbs_absorbSelectors
    (fun _ _ => noRoot_absorbSelectors) (defect?_keepLastDeclarations
      (defect?_mergeIn absorbs_absorbBody (fun _ _ => noRoot_absorbBody) h)))

/-- The passes of a level keep a tree valid. -/
theorem defect?_reduce {tree : Node} (h : tree.defect? = none) (level : Level) :
    (tree.reduce level).defect? = none := by
  have htidy := defect?_tidy h
  cases level with
  | basic => exact htidy
  | advanced => exact defect?_keepLastDeclarations htidy
  | aggressive => exact defect?_mergeRules (defect?_keepLastDeclarations htidy)

/-! ## Figures -/

namespace Arena

variable {a : Arena}

theorem optimize_of_defect (level : Level) {defect : Defect} (h : a.defect? = some defect) :
    a.optimize level = (a, ⟨a.size, a.size, 0, 0, level⟩) := by
  rw [optimize, h]
  simp [Savings.between]

/-- A valid arena is optimized through its tree. -/
theorem optimize_of_valid (level : Level) (h : a.defect? = none) :
    (a.optimize level).1 = ofTree (a.toTree.reduce level) ∧
      (a.optimize level).2 = Savings.between a.size (a.toTree.reduce level).size level := by
  have hlinked := (defect?_eq_none_iff_rooted.1 h).linked
  have htree : a.toTree.defect? = none := hlinked.defect?_toTree.trans h
  rw [optimize, h]
  dsimp only
  rw [Sheet.optimize, htree, hlinked.size_toTree]
  exact ⟨rfl, rfl⟩

/-- The arena of a valid tree is valid, and it has as many nodes. -/
theorem size_ofTree {tree : Node} (h : tree.defect? = none) : (ofTree tree).size = tree.size := by
  have hlinked := (defect?_eq_none_iff_rooted.1 (defect?_ofTree h)).linked
  rw [← hlinked.size_toTree, toTree_ofTree]

theorem size_optimize_of_valid (level : Level) (h : a.defect? = none) :
    (a.optimize level).1.defect? = none ∧
      (a.optimize level).1.size = (a.toTree.reduce level).size := by
  have htree : a.toTree.defect? = none :=
    (defect?_eq_none_iff_rooted.1 h).linked.defect?_toTree.trans h
  rw [(optimize_of_valid level h).1]
  exact ⟨defect?_ofTree (defect?_reduce htree level), size_ofTree (defect?_reduce htree level)⟩

theorem size_optimize_le (a : Arena) (level : Level) : (a.optimize level).1.size ≤ a.size := by
  cases h : a.defect? with
  | some defect => exact Nat.le_of_eq (congrArg (·.1.size) (optimize_of_defect level h))
  | none =>
    have hlinked := (defect?_eq_none_iff_rooted.1 h).linked
    rw [(size_optimize_of_valid level h).2, ← hlinked.size_toTree]
    exact size_reduce_le level a.toTree

theorem size_optimize_mono (a : Arena) :
    (a.optimize .aggressive).1.size ≤ (a.optimize .advanced).1.size ∧
      (a.optimize .advanced).1.size ≤ (a.optimize .basic).1.size := by
  cases h : a.defect? with
  | some defect => simp [optimize_of_defect _ h]
  | none =>
    rw [(size_optimize_of_valid .aggressive h).2, (size_optimize_of_valid .advanced h).2,
      (size_optimize_of_valid .basic h).2]
    exact ⟨size_mergeRules_le _, size_keepLastDeclarations_le _⟩

/-- **The figures of an optimization are exact.** A valid arena stays valid; the figures are its
    size, the size that is left, the difference, and that difference in bytes. An arena with a
    defect is left as it is, with nothing removed. A higher level leaves no more nodes than a lower
    one, and none leaves more than there were. -/
theorem optimize_figures (a : Arena) (level : Level) :
    (match a.defect? with
      | none =>
        (a.optimize level).1.defect? = none ∧
          (a.optimize level).2.before = a.size ∧
          (a.optimize level).2.after = (a.optimize level).1.size ∧
          (a.optimize level).2.removed + (a.optimize level).1.size = a.size ∧
          (a.optimize level).2.memory = 128 * (a.size - (a.optimize level).1.size)
      | some _ =>
        (a.optimize level).1 = a ∧ (a.optimize level).2.removed = 0) ∧
      (a.optimize .aggressive).1.size ≤ (a.optimize .advanced).1.size ∧
      (a.optimize .advanced).1.size ≤ (a.optimize .basic).1.size ∧
      (a.optimize .basic).1.size ≤ a.size := by
  obtain ⟨hhigh, hmiddle⟩ := a.size_optimize_mono
  refine ⟨?_, hhigh, hmiddle, a.size_optimize_le .basic⟩
  cases h : a.defect? with
  | some defect =>
    rw [optimize_of_defect level h]
    exact ⟨rfl, rfl⟩
  | none =>
    have hle := a.size_optimize_le level
    obtain ⟨hvalid, hsize⟩ := size_optimize_of_valid level h
    rw [(optimize_of_valid level h).2, ← hsize]
    exact ⟨hvalid, rfl, rfl, Nat.sub_add_cancel hle, Nat.mul_comm _ _⟩

end Arena

end Theming.Sheet
