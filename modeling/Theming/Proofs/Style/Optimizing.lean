import Theming.Proofs.Sheet.Signatures
import Theming.Proofs.Sheet.Sizes
import Theming.Style.Optimizer

set_option autoImplicit false

/-! # Cached optimizations

The optimizer recognises a tree that it has seen by its signature: the kind, the properties and the
number of children of each node, in document order. The signature determines the tree
(`Node.signature_inj`), so what was stored for one tree is never taken for another. That holds from
one step to the next, whatever is done with the optimizer (`sound_run`).

Main statement: `optimize_run_edited`, for trees that are edited in an arena. -/

namespace Theming

/-! ## Optimizing in an arena -/

namespace Sheet.Arena

/-- Optimizing an arena is optimizing its tree, with the same figures. -/
theorem Linked.optimize_toTree {a : Arena} (h : a.Linked) (level : Level) :
    (Sheet.optimize level a.toTree).2 = (a.optimize level).2 ∧
      Isomorphic (ofTree (Sheet.optimize level a.toTree).1) (a.optimize level).1 := by
  have hself : ∀ {b : Arena}, b.Linked → Isomorphic (ofTree b.toTree) b := fun hb =>
    (isomorphic_iff_toTree_eq (linked_ofTree _) hb).2 (toTree_ofTree _)
  cases hdefect : a.defect? with
  | none =>
    rw [Arena.optimize, hdefect]
    exact ⟨rfl, (isomorphic_iff_toTree_eq (linked_ofTree _) (linked_ofTree _)).2 rfl⟩
  | some defect =>
    rw [Arena.optimize, hdefect, Sheet.optimize, h.defect?_toTree, hdefect]
    exact ⟨by rw [h.size_toTree], hself h⟩

end Sheet.Arena

/-! ## What the optimizer answers -/

namespace Style.Optimizer

open Sheet (Node Level Savings)

/-- What is stored under the signature of a tree is the optimization of that tree. -/
def Sound (o : Optimizer) : Prop :=
  ∀ (tree : Node) (level : Level) (result : Node × Savings),
    Cache.find? ⟨tree.signature, level⟩ o.results = some result → result = Sheet.optimize level tree

theorem sound_of_results_eq_nil {o : Optimizer} (h : o.results = []) : o.Sound := by
  intro tree level result hfind
  rw [h] at hfind
  cases hfind

/-- A tree gets its own optimization, stored or not. -/
theorem optimize_eq {o : Optimizer} (h : o.Sound) (tree : Node) (level : Level) :
    (o.optimize tree level).1 = Sheet.optimize level tree := by
  unfold optimize
  dsimp only
  cases hfind : Cache.findWhen? o.settings.caches ⟨tree.signature, level⟩ o.results with
  | none => rfl
  | some result => exact h tree level result (Cache.findWhen?_eq_some_iff.1 hfind).2

theorem sound_optimize {o : Optimizer} (h : o.Sound) (tree : Node) (level : Level) :
    (o.optimize tree level).2.Sound := by
  unfold optimize
  dsimp only
  cases hfind : Cache.findWhen? o.settings.caches ⟨tree.signature, level⟩ o.results with
  | some result => exact h
  | none =>
    intro other otherLevel result hother
    obtain ⟨hkey, rfl⟩ | hbefore := Cache.find?_insertWhen_cases hother
    · -- What is stored now is found for the same tree only.
      obtain ⟨hsignature, rfl⟩ := ShapeKey.mk.inj hkey
      rw [Node.signature_inj hsignature]
    · exact h other otherLevel result hbefore

/-! ## Runs of an optimizer -/

/-- What can be done with an optimizer. -/
inductive Op where
  | optimize (tree : Node) (level : Level)
  | clear
  | settings (settings : OptimizerSettings)
  | reset

/-- Does one thing. -/
def step (o : Optimizer) : Op → Optimizer
  | .optimize tree level => (o.optimize tree level).2
  | .clear => o.clearCache
  | .settings settings => o.withSettings settings
  | .reset => o.resetMetrics

/-- Does one thing after the other. -/
def run (o : Optimizer) (ops : List Op) : Optimizer := ops.foldl step o

theorem sound_step {o : Optimizer} (h : o.Sound) (op : Op) : (o.step op).Sound := by
  cases op with
  | optimize tree level => exact sound_optimize h tree level
  | clear => exact sound_of_results_eq_nil rfl
  | settings settings => exact sound_of_results_eq_nil rfl
  | reset => exact h

theorem sound_run {o : Optimizer} (h : o.Sound) (ops : List Op) : (o.run ops).Sound := by
  induction ops generalizing o with
  | nil => exact h
  | cons op rest ih => exact ih (sound_step h op)

open Sheet (Arena) in
/-- **The cache of an optimizer cannot be noticed.** Two trees that are edited in arenas, from
    whatever tree on, have the same signature just when they are isomorphic. The optimizer looks them
    up by that signature, and whatever was done with it before, optimizing one gives the figures and,
    but for the numbers of its nodes, the tree that optimizing without a cache gives. -/
theorem optimize_run_edited :
    (∀ (tree tree' : Node) (edits edits' : List Arena.Edit),
      ((Arena.ofTree tree).run edits).signature = ((Arena.ofTree tree').run edits').signature ↔
        Arena.Isomorphic ((Arena.ofTree tree).run edits) ((Arena.ofTree tree').run edits')) ∧
    ∀ (settings : OptimizerSettings) (ops : List Op) (tree : Node) (edits : List Arena.Edit)
      (level : Level),
      let edited := (Arena.ofTree tree).run edits
      let answer := (((start settings).run ops).optimize edited.toTree level).1
      edited.toTree.signature = edited.signature ∧ answer.2 = (edited.optimize level).2 ∧
        Arena.Isomorphic (Arena.ofTree answer.1) (edited.optimize level).1 := by
  have hlinked : ∀ (tree : Node) (edits : List Arena.Edit), ((Arena.ofTree tree).run edits).Linked :=
    fun tree edits => (Arena.linked_ofTree tree).run edits
  constructor
  · intro tree tree' edits edits'
    rw [Arena.isomorphic_iff_toTree_eq (hlinked tree edits) (hlinked tree' edits'),
      ← (hlinked tree edits).signature_toTree, ← (hlinked tree' edits').signature_toTree]
    exact ⟨Node.signature_inj, fun h => by rw [h]⟩
  · intro settings ops tree edits level edited answer
    have hsound : ((start settings).run ops).Sound :=
      sound_run (sound_of_results_eq_nil rfl) ops
    have hanswer : answer = Sheet.optimize level edited.toTree :=
      optimize_eq hsound edited.toTree level
    rw [hanswer]
    exact ⟨(hlinked tree edits).signature_toTree, (hlinked tree edits).optimize_toTree level⟩

end Style.Optimizer

end Theming
