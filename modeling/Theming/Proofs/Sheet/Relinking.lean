import Theming.Proofs.Sheet.Traversals

set_option autoImplicit false

/-! # What removing and moving change

To remove a node and to move one are the edits that take links away. Both take the node out of the
children of its parent, and that is all that they do to the nodes around it: where no more is said
about a node in `Removed` and `Moved`, it keeps its kind, its properties, its parent and its
children, and of the children the order (`structural_edits_exact`).

The nodes below a removed node go with it. They can be found with a queue that each of them joins
behind the others when its parent is taken out (`Linked.remove_eq_sweep`). -/

namespace Theming.Sheet

namespace Arena

variable {a b : Arena}

/-! ## Removing -/

/-- What removing a node does: what is below it is gone, and every other node is as before, but that
    the removed node is missing among its children. -/
structure Removed (a b : Arena) (id : Nat) : Prop where
  gone : ∀ x, a.Below id x → b.get? x = none
  kept : ∀ x, ¬ a.Below id x → b.get? x =
    (a.get? x).map (fun slot => { slot with children := slot.children.filter (· != id) })

theorem Linked.removed (h : a.Linked) {id : Nat} {slot : Slot}
    (hresult : a.remove id = some (slot, b)) : Removed a b id where
  gone x hbelow := (h.get?_remove hresult x).1 hbelow
  kept x hbelow := by rw [(h.get?_remove hresult x).2 hbelow, h.get?_detach]

/-- A node is not removed just when there is nothing to remove, and when it is the root. -/
theorem remove_eq_none_iff {id : Nat} :
    a.remove id = none ↔ a.contains id = false ∨ id = rootId := by
  rw [Arena.remove, contains]
  split
  · next hroot => simp [hroot]
  · next hroot => simp [hroot]

/-! ## Removing with a queue -/

theorem cleared_nil (a : Arena) : a.cleared [] = a := by
  have hslots : a.slots.mapIdx (fun _ slot => slot) = a.slots := List.ext_getElem? (by simp)
  simp [cleared, hslots]

theorem cleared_cleared (a : Arena) (ids ids' : List Nat) :
    (a.cleared ids).cleared ids' = a.cleared (ids ++ ids') := by
  rw [cleared, cleared, cleared, List.mapIdx_mapIdx]
  congr 2
  funext i slot
  by_cases hi : i ∈ ids <;> by_cases hi' : i ∈ ids' <;> simp [hi, hi']

theorem cleared_congr {ids ids' : List Nat} (hsame : ∀ x, x ∈ ids ↔ x ∈ ids') :
    a.cleared ids = a.cleared ids' := by
  simp only [cleared, List.contains_iff_mem, hsame]

theorem contains_cleared {ids : List Nat} {x : Nat} :
    (a.cleared ids).contains x = true ↔ x ∉ ids ∧ a.contains x = true := by
  rw [contains, get?_cleared]
  split
  · next hx => simp [hx]
  · next hx => simp [hx, contains]

theorem size_cleared_lt {id : Nat} (hlive : a.contains id = true) :
    (a.cleared [id]).size < a.size := by
  have hmem := mem_live_iff.2 hlive
  have hsub : (a.cleared [id]).live ⊆ a.live.erase id := by
    intro x hx
    obtain ⟨hne, hold⟩ := contains_cleared.1 (mem_live_iff.1 hx)
    exact (a.nodup_live.mem_erase_iff).2 ⟨by simpa using hne, mem_live_iff.2 hold⟩
  have hle := (nodup_live (a.cleared [id])).length_le_of_subset hsub
  have hpos := List.length_pos_of_mem hmem
  rw [List.length_erase_of_mem hmem] at hle
  rw [← length_live, ← length_live]
  omega

/-- Takes the nodes of a queue out of the arena, one after the other. The children of each join the
    queue behind the others. -/
def sweep (a : Arena) (queue : List Nat) : Arena :=
  match queue with
  | [] => a
  | id :: queue =>
    if _h : a.contains id = true then (a.cleared [id]).sweep (queue ++ a.childrenOf id)
    else a.sweep queue
termination_by (a.size, queue.length)
decreasing_by
  · exact Prod.Lex.left _ _ (size_cleared_lt _h)
  · exact Prod.Lex.right _ (Nat.lt_succ_self _)

/-- A queue that leads to all that is left takes out just that, as long as the nodes that are left
    are as they were in an arena whose links are in order. -/
theorem Linked.sweep_eq_cleared (h : a.Linked) {unseen queue : List Nat}
    (hpending : a.Pending unseen queue) (hlive : ∀ s ∈ queue, a.contains s = true)
    (hsame : ∀ x ∈ unseen, b.get? x = a.get? x) : b.sweep queue = b.cleared unseen := by
  fun_induction sweep b queue generalizing unseen with
  | case1 b =>
    have hnone : unseen = [] := by
      apply List.eq_nil_iff_forall_not_mem.2
      intro x hx
      obtain ⟨s, hs, -⟩ := hpending.mem_iff.1 hx
      cases hs
    rw [hnone, cleared_nil]
  | case2 b id queue hcontains ih =>
    have hid : id ∈ unseen := hpending.mem_iff.2 ⟨id, List.mem_cons_self, .self⟩
    have hchildren : b.childrenOf id = a.childrenOf id := by
      rw [childrenOf, hsame id hid, childrenOf]
    have hrest : a.Pending (unseen.erase id) (queue ++ b.childrenOf id) := by
      rw [hchildren]
      refine (h.pending_children hpending).perm (List.perm_append_comm.trans ?_)
      exact (List.reverse_perm (a.childrenOf id)).append_left queue
    rw [ih hrest ?_ ?_, cleared_cleared]
    · refine cleared_congr fun x => ?_
      rw [List.singleton_append, ← (List.perm_cons_erase hid).mem_iff]
    · intro s hs
      rcases List.mem_append.1 hs with hs | hs
      · exact hlive s (List.mem_cons_of_mem id hs)
      · rw [hchildren] at hs
        exact contains_of_parent? (h.links.1 hs)
    · intro x hx
      obtain ⟨hne, hx⟩ := hpending.nodup.mem_erase_iff.1 hx
      rw [get?_cleared, if_neg (by simpa using hne), hsame x hx]
  | case3 b id queue hstale ih =>
    have hid : id ∈ unseen := hpending.mem_iff.2 ⟨id, List.mem_cons_self, .self⟩
    have hcontains : b.contains id = a.contains id := by
      rw [contains, hsame id hid, contains]
    exact absurd (hcontains.trans (hlive id List.mem_cons_self)) hstale

/-- **The nodes below a removed node are those that the queue comes to.** -/
theorem Linked.remove_eq_sweep (h : a.Linked) {id : Nat} {slot : Slot}
    (hresult : a.remove id = some (slot, b)) : (a.detach id).sweep [id] = b := by
  obtain ⟨-, hslot, rfl⟩ := remove_eq_some_iff.1 hresult
  have hlive := contains_of_get? hslot
  have hpending : a.Pending (a.walk id) [id] :=
    ⟨h.nodup_walk hlive, by simp [h.mem_walk_iff hlive], List.pairwise_singleton _ _⟩
  refine h.sweep_eq_cleared hpending (by simpa using hlive) (fun x hx => ?_)
  -- The node is not among the children of what is below it.
  have hkeep : a.parent? id ≠ some x := fun hparent =>
    h.acyclic hparent ((h.mem_walk_iff hlive).1 hx)
  exact h.get?_detach_of_ne hkeep

/-! ## Moving -/

/-- What moving a node does: it gets a new parent, and the new parent has it behind its other
    children. Every other node is as before, but that the moved node is missing among its children,
    and what is below the moved node is as before in every way. -/
structure Moved (a b : Arena) (id target : Nat) : Prop where
  node : b.get? id = (a.get? id).map (fun slot => { slot with parent := some target })
  parent : b.get? target = (a.get? target).map (fun slot =>
    { slot with children := slot.children.filter (· != id) ++ [id] })
  other : ∀ x, x ≠ id → x ≠ target → b.get? x =
    (a.get? x).map (fun slot => { slot with children := slot.children.filter (· != id) })
  below_iff : ∀ x, b.Below id x ↔ a.Below id x
  inside : ∀ x, a.Below id x → x ≠ id → b.get? x = a.get? x
  subtree : ∀ depth, b.subtree depth id = a.subtree depth id

/-- A node is moved just when both numbers are live and the new parent is not below the node. -/
theorem Linked.isSome_reparent_iff (h : a.Linked) {id target : Nat} :
    (a.reparent id target).isSome = true ↔
      a.contains id = true ∧ a.contains target = true ∧ id ≠ rootId ∧ ¬ a.Below id target := by
  have hbelow : id ≠ target ∧ id ∉ a.ancestors target ↔ ¬ a.Below id target := by
    rw [h.mem_ancestors_iff]
    constructor
    · rintro ⟨hne, hnot⟩ hb
      exact hnot ⟨hne, hb⟩
    · intro hnot
      exact ⟨fun heq => hnot (heq ▸ .self), fun hb => hnot hb.2⟩
  rw [Option.isSome_iff_exists]
  simp only [reparent_eq_some_iff, hbelow]
  constructor
  · rintro ⟨_, ⟨hroot, hid, htarget, hnot⟩, -⟩
    exact ⟨hid, htarget, hroot, hnot⟩
  · rintro ⟨hid, htarget, hroot, hnot⟩
    exact ⟨_, ⟨hroot, hid, htarget, hnot⟩, rfl⟩

/-- Where only the node on top gets another parent, the same nodes are below it. -/
theorem Below.of_top (h : b.Linked) {top x : Nat}
    (hparent : ∀ y, y ≠ top → b.parent? y = a.parent? y) (hbelow : b.Below top x) :
    a.Below top x := by
  refine hbelow.of_path (fun y parent habove _ hup => ?_)
  have hne : y ≠ top := fun heq => h.acyclic (heq ▸ hup) habove
  rw [← hparent y hne, hup]

/-- Nodes with the same kinds, properties and children all the way down hold the same tree. -/
theorem subtree_congr (h : a.Linked) {top : Nat}
    (hsame : ∀ x, a.Below top x → (b.get? x).map (fun slot => { slot with parent := none }) =
      (a.get? x).map (fun slot => { slot with parent := none }))
    {depth x : Nat} (hx : a.Below top x) : b.subtree depth x = a.subtree depth x := by
  induction depth generalizing x with
  | zero => rfl
  | succ depth ih =>
    have hslots := hsame x hx
    cases hslot : a.get? x with
    | none =>
      rw [hslot, Option.map_none, Option.map_eq_none_iff] at hslots
      rw [subtree, hslots, subtree, hslot]
    | some slot =>
      rw [hslot, Option.map_some, Option.map_eq_some_iff] at hslots
      obtain ⟨slot', hslot', heq⟩ := hslots
      obtain ⟨hkind, hproperties, -, hchildren⟩ := Slot.mk.inj heq
      rw [subtree_of_get? hslot', subtree_of_get? hslot, hkind, hproperties, hchildren]
      refine congrArg _ (List.map_congr_left fun child hchild => ih (hx.child ?_))
      rw [← h.links, childrenOf_of_get? hslot]
      exact hchild

section Moved

variable {id target : Nat}

/-- Below the moved node nothing changes. -/
theorem Linked.get?_reparent_of_below (h : a.Linked) (hresult : a.reparent id target = some b)
    {x : Nat} (hx : a.Below id x) (hne : x ≠ id) : b.get? x = a.get? x := by
  obtain ⟨-, -, -, hnot⟩ := h.isSome_reparent_iff.1 (by rw [hresult]; rfl)
  have htarget : x ≠ target := fun heq => hnot (heq ▸ hx)
  have hkeep := h.map_filter_of_ne (fun hup => h.acyclic hup hx)
  rw [h.get?_reparent hresult]
  simpa [hne, htarget] using hkeep

/-- The moved node gets another parent, and keeps its children. -/
theorem Linked.get?_reparent_self (h : a.Linked) (hresult : a.reparent id target = some b) :
    b.get? id = (a.get? id).map (fun slot => { slot with parent := some target }) := by
  obtain ⟨-, -, -, hnot⟩ := h.isSome_reparent_iff.1 (by rw [hresult]; rfl)
  have hne : id ≠ target := fun heq => hnot (heq ▸ .self)
  have hself : a.parent? id ≠ some id := fun hup => h.acyclic hup .self
  rw [h.get?_reparent hresult, ← h.map_filter_of_ne hself, Option.map_map]
  simp [hne, Function.comp_def]

theorem Linked.moved (h : a.Linked) (hresult : a.reparent id target = some b) :
    Moved a b id target := by
  have hget := h.get?_reparent hresult
  have hnode := h.get?_reparent_self hresult
  have hparent : ∀ y, y ≠ id → b.parent? y = a.parent? y := by
    intro y hy
    rw [(h.links_reparent hresult y).2.1, if_neg hy]
  refine ⟨hnode, ?_, ?_, fun x => ⟨.of_top (h.reparent hresult) hparent, ?_⟩,
    fun x => h.get?_reparent_of_below hresult, fun depth => subtree_congr h (fun x hx => ?_) .self⟩
  · obtain ⟨-, -, -, hnot⟩ := h.isSome_reparent_iff.1 (by rw [hresult]; rfl)
    have hne : target ≠ id := fun heq => hnot (heq ▸ .self)
    rw [hget]
    simp [hne]
  · intro x hx hxtarget
    rw [hget]
    simp [hx, hxtarget]
  · exact .of_top h (fun y hy => (hparent y hy).symm)
  · by_cases hxid : x = id
    · rw [hxid, hnode, Option.map_map]
      rfl
    · rw [h.get?_reparent_of_below hresult hx hxid]

end Moved

/-! ## Edited arenas -/

/-- **Removing and moving do what they say and no more.** Whatever tree an arena is made of and
    however it is edited: a node is not removed just when its number is stale or that of the root,
    and otherwise it goes with what is below it; a node is not moved just when one of the numbers is
    stale, when it is the root, and when the new parent is the node itself or below it, and
    otherwise it comes last below the new parent. What is refused changes nothing. -/
theorem structural_edits_exact (tree : Node) (edits : List Edit) (id target : Nat) :
    let a := (ofTree tree).run edits
    ((a.remove id = none ↔ a.contains id = false ∨ id = rootId) ∧
      (a.remove id = none → a.edit (.remove id) = a) ∧
      ∀ slot b, a.remove id = some (slot, b) →
        a.get? id = some slot ∧ a.edit (.remove id) = b ∧ Removed a b id) ∧
    ((a.reparent id target).isSome = true ↔
        a.contains id = true ∧ a.contains target = true ∧ id ≠ rootId ∧ ¬ a.Below id target) ∧
      (a.reparent id target = none → a.edit (.reparent id target) = a) ∧
      ∀ b, a.reparent id target = some b →
        a.edit (.reparent id target) = b ∧ Moved a b id target := by
  intro a
  have h : a.Linked := (linked_ofTree tree).run edits
  refine ⟨⟨remove_eq_none_iff, fun hnone => ?_, fun slot b hresult => ⟨?_, ?_, h.removed hresult⟩⟩,
    h.isSome_reparent_iff, fun hnone => ?_, fun b hresult => ⟨?_, h.moved hresult⟩⟩
  · rw [edit, hnone]
    rfl
  · exact (remove_eq_some_iff.1 hresult).2.1
  · rw [edit, hresult]
    rfl
  · rw [edit, hnone]
    rfl
  · rw [edit, hresult]
    rfl

/-- A rule goes with the rule in it, a declaration is moved behind its sibling, and a rule is not
    moved below its own selector. -/
theorem structural_edits_exact_nested :
    let a := (ofTree twoRules).run nesting
    (∃ slot b, a.remove 6 = some (slot, b) ∧ Removed a b 6 ∧ b.get? 5 = none ∧
        b.childrenOf 1 = [2, 3]) ∧
      (∃ b, a.reparent 3 1 = some b ∧ Moved a b 3 1 ∧ b.childrenOf 1 = [2, 6, 3]) ∧
      a.reparent 6 5 = none ∧ a.edit (.reparent 6 5) = a := by
  obtain ⟨⟨hnone, -, hremoved⟩, hmovable, -⟩ := structural_edits_exact twoRules nesting 6 1
  obtain ⟨-, -, -, hmoved⟩ := structural_edits_exact twoRules nesting 3 1
  obtain ⟨-, -, hunchanged, -⟩ := structural_edits_exact twoRules nesting 6 5
  intro a
  have hrule : a.Below 6 4 := Below.self.child (by decide +kernel)
  have hbelow : a.Below 6 5 := hrule.child (by decide +kernel)
  have habove : ¬ a.Below 6 1 := (hmovable.1 (by decide +kernel)).2.2.2
  have hrefused : a.reparent 6 5 = none := by decide +kernel
  have hchildren : (a.reparent 3 1).map (fun b => b.childrenOf 1) = some [2, 6, 3] := by
    decide +kernel
  obtain ⟨c, hmove, hc⟩ := Option.map_eq_some_iff.1 hchildren
  obtain ⟨⟨slot, b⟩, hremove⟩ := Option.ne_none_iff_exists'.1 (mt hnone.1 (by decide +kernel))
  obtain ⟨-, -, hb⟩ := hremoved slot b hremove
  refine ⟨⟨slot, b, hremove, hb, hb.gone 5 hbelow, ?_⟩, ⟨c, hmove, (hmoved c hmove).2, hc⟩,
    hrefused, hunchanged hrefused⟩
  rw [childrenOf, hb.kept 1 habove]
  decide +kernel

end Arena

end Theming.Sheet
