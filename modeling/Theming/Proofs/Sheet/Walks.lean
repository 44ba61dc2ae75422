import Mathlib.Data.List.Perm.Subperm
import Theming.Proofs.Sheet.Links

set_option autoImplicit false

/-! # Walks along links

A walk down lists what is below a node, and a walk up what is above it. Both stop after as many
nodes as there are. Where the links are in order that is never too early: no node is met twice.

Main statements: `Linked.walk_perm_below` and `Linked.mem_ancestors_iff`. -/

namespace Theming.Sheet

namespace Arena

variable {a : Arena}

/-! ## Live nodes -/

/-- The numbers of the live nodes. -/
def live (a : Arena) : List Nat := (List.range a.slots.length).filter a.contains

theorem mem_live_iff {id : Nat} : id ∈ a.live ↔ a.contains id = true := by
  rw [live, List.mem_filter, List.mem_range]
  exact and_iff_right_of_imp lt_length_of_contains

theorem nodup_live (a : Arena) : a.live.Nodup := List.nodup_range.filter _

theorem map_get?_range (a : Arena) : (List.range a.slots.length).map a.get? = a.slots := by
  apply List.ext_getElem?
  intro i
  rw [List.getElem?_map]
  rcases Nat.lt_or_ge i a.slots.length with hlt | hge
  · rw [List.getElem?_range hlt, Option.map_some, get?, List.getElem?_eq_getElem hlt]
    rfl
  · rw [List.getElem?_eq_none (by simpa using hge), List.getElem?_eq_none hge]
    rfl

theorem length_live (a : Arena) : a.live.length = a.size := by
  unfold size
  rw [← a.map_get?_range, List.countP_map, List.countP_eq_length_filter]
  rfl

/-- No more different nodes are live than there are. -/
theorem length_le_size {ids : List Nat} (hnodup : ids.Nodup)
    (hlive : ∀ id ∈ ids, a.contains id = true) : ids.length ≤ a.size := by
  rw [← a.length_live]
  exact hnodup.length_le_of_subset (fun id hid => mem_live_iff.2 (hlive id hid))

theorem Below.contains {top id : Nat} (h : a.Below top id) (hlive : a.contains top = true) :
    a.contains id = true := by
  rcases h.cases with rfl | ⟨parent, hparent, -⟩
  · exact hlive
  · exact contains_of_parent? hparent

/-! ## The nodes below a node -/

open Classical in
/-- The numbers of a node and of all that is below it. -/
noncomputable def below (a : Arena) (id : Nat) : List Nat := a.live.filter (fun x => a.Below id x)

open Classical in
theorem mem_below_iff {id x : Nat} (hlive : a.contains id = true) :
    x ∈ a.below id ↔ a.Below id x := by
  rw [below, List.mem_filter, mem_live_iff, decide_eq_true_iff]
  exact and_iff_right_of_imp (fun hbelow => hbelow.contains hlive)

theorem nodup_below (a : Arena) (id : Nat) : (a.below id).Nodup := a.nodup_live.filter _

theorem length_below_le_size (a : Arena) (id : Nat) : (a.below id).length ≤ a.size := by
  rw [← a.length_live]
  exact List.length_filter_le _ _

open Classical in
theorem Linked.below_root (h : a.Linked) : a.below rootId = a.live := by
  apply List.filter_eq_self.2
  intro x hx
  exact decide_eq_true (h.grounded (mem_live_iff.1 hx))

/-! ## Walking down -/

/-- In which order the stack stands does not matter for what is left. -/
theorem Pending.perm {unseen stack stack' : List Nat} (hperm : stack.Perm stack')
    (h : a.Pending unseen stack) : a.Pending unseen stack' where
  nodup := h.nodup
  mem_iff := by
    intro x
    rw [h.mem_iff]
    simp only [hperm.mem_iff]
  apart := by
    refine (hperm.pairwise_iff ?_).1 h.apart
    intro s t hst x ht hs
    exact hst x hs ht

/-- A walk with room for all that is left lists just that. -/
theorem Linked.walkFrom_perm (h : a.Linked) {room : Nat} {unseen stack : List Nat}
    (hpending : a.Pending unseen stack) (hlive : ∀ s ∈ stack, a.contains s = true)
    (hroom : unseen.length ≤ room) : (a.walkFrom room stack).Perm unseen := by
  fun_induction walkFrom a room stack generalizing unseen with
  | case1 room =>
    have hnone : unseen = [] := by
      apply List.eq_nil_iff_forall_not_mem.2
      intro x hx
      obtain ⟨s, hs, -⟩ := hpending.mem_iff.1 hx
      cases hs
    rw [hnone]
  | case2 id stack =>
    have hid : id ∈ unseen := hpending.mem_iff.2 ⟨id, List.mem_cons_self, .self⟩
    rw [List.length_eq_zero_iff.1 (Nat.le_zero.1 hroom)] at hid
    cases hid
  | case3 room id stack hcontains ih =>
    have hid : id ∈ unseen := hpending.mem_iff.2 ⟨id, List.mem_cons_self, .self⟩
    have hchildren := (h.pending_children hpending).perm
      ((List.reverse_perm (a.childrenOf id)).append_right stack)
    refine ((ih hchildren ?_ ?_).cons id).trans (List.perm_cons_erase hid).symm
    · intro s hs
      rcases List.mem_append.1 hs with hs | hs
      · exact contains_of_parent? (h.links.1 hs)
      · exact hlive s (List.mem_cons_of_mem id hs)
    · rw [List.length_erase_of_mem hid]
      omega
  | case4 room id stack hstale ih =>
    exact absurd (hlive id List.mem_cons_self) hstale

/-- **A walk lists a node and all that is below it**, each once. -/
theorem Linked.walk_perm_below (h : a.Linked) {id : Nat} (hlive : a.contains id = true) :
    (a.walk id).Perm (a.below id) := by
  have hpending : a.Pending (a.below id) [id] :=
    ⟨a.nodup_below id, by simp [mem_below_iff hlive], List.pairwise_singleton _ _⟩
  exact h.walkFrom_perm hpending (by simpa using hlive)
    (Nat.le_succ_of_le (a.length_below_le_size id))

theorem Linked.mem_walk_iff (h : a.Linked) {id : Nat} (hlive : a.contains id = true) {x : Nat} :
    x ∈ a.walk id ↔ a.Below id x :=
  (h.walk_perm_below hlive).mem_iff.trans (mem_below_iff hlive)

/-! ## Walking up -/

theorem mem_ancestorsFrom {room id x : Nat} (h : x ∈ a.ancestorsFrom room id) :
    ∃ parent, a.parent? id = some parent ∧ a.Below x parent := by
  induction room generalizing id with
  | zero => cases h
  | succ room ih =>
    rw [ancestorsFrom] at h
    split at h
    · cases h
    · next parent hparent =>
      refine ⟨parent, hparent, ?_⟩
      rcases List.mem_cons.1 h with rfl | h
      · exact .self
      · obtain ⟨next, hnext, hbelow⟩ := ih h
        exact hbelow.child hnext

theorem Linked.nodup_ancestorsFrom (h : a.Linked) (room id : Nat) :
    (a.ancestorsFrom room id).Nodup := by
  induction room generalizing id with
  | zero => exact List.nodup_nil
  | succ room ih =>
    rw [ancestorsFrom]
    split
    · exact List.nodup_nil
    · next parent hparent =>
      refine List.nodup_cons.2 ⟨fun hmem => ?_, ih parent⟩
      obtain ⟨next, hnext, hbelow⟩ := mem_ancestorsFrom hmem
      exact h.acyclic hnext hbelow

/-- A walk up that stops before its room is used up has reached the top. -/
theorem mem_ancestorsFrom_of_below {room id parent x : Nat}
    (hroom : (a.ancestorsFrom room id).length < room) (hparent : a.parent? id = some parent)
    (hbelow : a.Below x parent) : x ∈ a.ancestorsFrom room id := by
  induction room generalizing id parent with
  | zero => cases hroom
  | succ room ih =>
    rw [ancestorsFrom, hparent] at hroom ⊢
    dsimp only at hroom ⊢
    rcases hbelow.cases with rfl | ⟨next, hnext, hbelow⟩
    · exact List.mem_cons_self
    · exact List.mem_cons_of_mem _ (ih (Nat.lt_of_succ_lt_succ hroom) hnext hbelow)

theorem Linked.contains_of_mem_ancestorsFrom (h : a.Linked) {room id x : Nat}
    (hx : x ∈ a.ancestorsFrom room id) : a.contains x = true := by
  obtain ⟨parent, hparent, hbelow⟩ := mem_ancestorsFrom hx
  have hlive : a.contains parent = true := contains_of_mem_childrenOf (h.links.2 hparent)
  rcases hbelow.first with rfl | ⟨child, hchild, -⟩
  · exact hlive
  · exact contains_of_mem_childrenOf (h.links.2 hchild)

theorem Linked.length_ancestors_le (h : a.Linked) (id : Nat) :
    (a.ancestors id).length ≤ a.size :=
  length_le_size (h.nodup_ancestorsFrom _ id) (fun _ hx => h.contains_of_mem_ancestorsFrom hx)

/-- **The ancestors of a node are the other nodes that it is below.** -/
theorem Linked.mem_ancestors_iff (h : a.Linked) {id x : Nat} :
    x ∈ a.ancestors id ↔ x ≠ id ∧ a.Below x id := by
  constructor
  · intro hx
    obtain ⟨parent, hparent, hbelow⟩ := mem_ancestorsFrom hx
    refine ⟨?_, hbelow.child hparent⟩
    rintro rfl
    exact h.acyclic hparent hbelow
  · rintro ⟨hne, hbelow⟩
    rcases hbelow.cases with rfl | ⟨parent, hparent, hbelow⟩
    · exact absurd rfl hne
    · exact mem_ancestorsFrom_of_below (Nat.lt_succ_of_le (h.length_ancestors_le id)) hparent hbelow

end Arena

end Theming.Sheet
