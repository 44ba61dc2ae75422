import Mathlib.Algebra.GroupWithZero.Nat
import Theming.Proofs.Sheet.Arenas

set_option autoImplicit false

/-! # Complete traversals

The walk down keeps a stack and stops after one node more than there are; the walk up stops there,
too. Where the links are in order neither of them is ever stopped: a walk down lists what a
recursion over the children lists (`Linked.walkFrom_listing`), and a walk up goes from parent to
parent until it is at the root (`Linked.ancestors_of_parent?`).

So the walk from the root comes to every live node once, and the nodes of the six kinds are a
partition of what it lists (`Linked.flatMap_ofKind_perm`). The main statement,
`traversals_complete`, says this of every arena that is made of a tree and edited. -/

namespace Theming.Sheet

namespace Arena

variable {a : Arena}

/-! ## Downwards -/

/-- A node, and then what is listed from its children in their order. Links are followed `depth`
    levels down. -/
def listing (a : Arena) : (depth : Nat) → Nat → List Nat
  | 0, _ => []
  | depth + 1, id => id :: (a.childrenOf id).flatMap (a.listing depth)

/-- If the walk lists each of some nodes with what is below it before it goes on, it lists all of
    them, one after the other. -/
theorem walkFrom_append {ids : List Nat} {listed : Nat → List Nat}
    (hids : ∀ id ∈ ids, ∀ room stack, a.walkFrom ((a.below id).length + room) (id :: stack) =
      listed id ++ a.walkFrom room stack) (room : Nat) (stack : List Nat) :
    a.walkFrom ((ids.flatMap a.below).length + room) (ids ++ stack) =
      ids.flatMap listed ++ a.walkFrom room stack := by
  induction ids with
  | nil => simp
  | cons id rest ih =>
    obtain ⟨hid, hrest⟩ := List.forall_mem_cons.1 hids
    rw [List.flatMap_cons, List.flatMap_cons, List.length_append, Nat.add_assoc, List.cons_append,
      hid, ih hrest, List.append_assoc]

theorem Linked.length_below_pos (h : a.Linked) {id : Nat} (hlive : a.contains id = true) :
    0 < (a.below id).length := by
  rw [(h.below_perm hlive).length_eq, List.length_cons]
  exact Nat.succ_pos _

/-- **The walk takes a node with all that is below it off the stack**, in the order of the
    recursion, and uses up room for just these nodes. -/
theorem Linked.walkFrom_listing (h : a.Linked) {depth id : Nat} (hlive : a.contains id = true)
    (hdepth : (a.below id).length ≤ depth) (room : Nat) (stack : List Nat) :
    a.walkFrom ((a.below id).length + room) (id :: stack) =
      a.listing depth id ++ a.walkFrom room stack := by
  induction depth generalizing id room stack with
  | zero => exact absurd (h.length_below_pos hlive) (Nat.not_lt.2 hdepth)
  | succ depth ih =>
    have hchildren : ∀ child ∈ a.childrenOf id, ∀ room stack,
        a.walkFrom ((a.below child).length + room) (child :: stack) =
          a.listing depth child ++ a.walkFrom room stack := by
      intro child hchild room stack
      have hlt := h.length_below_lt hchild
      exact ih (contains_of_parent? (h.links.1 hchild)) (by omega) room stack
    rw [(h.below_perm hlive).length_eq, List.length_cons, Nat.add_right_comm, walkFrom,
      if_pos hlive, walkFrom_append hchildren, listing, List.cons_append]

/-- With room for what is below a node, the walk from it is the recursive listing. -/
theorem Linked.walkFrom_eq_listing (h : a.Linked) {depth room id : Nat}
    (hlive : a.contains id = true) (hdepth : (a.below id).length ≤ depth)
    (hroom : (a.below id).length ≤ room) : a.walkFrom room [id] = a.listing depth id := by
  obtain ⟨more, rfl⟩ := Nat.exists_eq_add_of_le hroom
  rw [h.walkFrom_listing hlive hdepth, walkFrom, List.append_nil]

theorem Linked.walk_eq_listing (h : a.Linked) {depth id : Nat} (hlive : a.contains id = true)
    (hdepth : a.size ≤ depth) : a.walk id = a.listing depth id :=
  h.walkFrom_eq_listing hlive (Nat.le_trans (a.length_below_le_size id) hdepth)
    (Nat.le_succ_of_le (a.length_below_le_size id))

/-- The walk from a node is made of the walks from its children. -/
theorem Linked.walk_eq_cons (h : a.Linked) {id : Nat} (hlive : a.contains id = true) :
    a.walk id = id :: (a.childrenOf id).flatMap a.walk := by
  rw [h.walk_eq_listing hlive (Nat.le_succ a.size), listing]
  refine congrArg (id :: ·) (List.flatMap_congr fun child hchild => ?_)
  exact (h.walk_eq_listing (contains_of_parent? (h.links.1 hchild)) (Nat.le_refl _)).symm

theorem Linked.nodup_walk (h : a.Linked) {id : Nat} (hlive : a.contains id = true) :
    (a.walk id).Nodup :=
  (h.walk_perm_below hlive).nodup_iff.2 (a.nodup_below id)

/-- The walk from the root lists the live nodes. -/
theorem Linked.walk_root_perm (h : a.Linked) : (a.walk rootId).Perm a.live :=
  h.below_root ▸ h.walk_perm_below h.root_live

/-! ## Upwards -/

theorem isChain_ancestorsFrom (room id : Nat) :
    (id :: a.ancestorsFrom room id).IsChain (fun x y => a.parent? x = some y) := by
  induction room generalizing id with
  | zero => exact List.IsChain.singleton id
  | succ room ih =>
    rw [ancestorsFrom]
    split
    · exact List.IsChain.singleton id
    · next parent hparent => exact List.isChain_cons_cons.2 ⟨hparent, ih parent⟩

/-- A walk up that stops before its room is used up comes no further with more room. -/
theorem ancestorsFrom_add {room id : Nat} (hroom : (a.ancestorsFrom room id).length < room)
    (more : Nat) : a.ancestorsFrom (room + more) id = a.ancestorsFrom room id := by
  induction room generalizing id with
  | zero => cases hroom
  | succ room ih =>
    rw [Nat.add_right_comm, ancestorsFrom, ancestorsFrom]
    rw [ancestorsFrom] at hroom
    split
    · rfl
    · next parent hparent =>
      rw [hparent] at hroom
      exact congrArg (parent :: ·) (ih (Nat.lt_of_succ_lt_succ hroom))

/-- A live node has fewer ancestors than there are nodes, since it is none of them. -/
theorem Linked.length_ancestorsFrom_lt (h : a.Linked) {id : Nat} (hlive : a.contains id = true)
    (room : Nat) : (a.ancestorsFrom room id).length < a.size := by
  have hself : id ∉ a.ancestorsFrom room id := by
    intro hmem
    obtain ⟨parent, hparent, hbelow⟩ := mem_ancestorsFrom hmem
    exact h.acyclic hparent hbelow
  have hnodup := List.nodup_cons.2 ⟨hself, h.nodup_ancestorsFrom room id⟩
  refine Nat.lt_of_succ_le (length_le_size hnodup (List.forall_mem_cons.2 ⟨hlive, fun x hx => ?_⟩))
  exact h.contains_of_mem_ancestorsFrom hx

theorem Linked.ancestorsFrom_eq (h : a.Linked) {room id : Nat} (hlive : a.contains id = true)
    (hroom : a.size ≤ room) : a.ancestorsFrom room id = a.ancestors id := by
  have hlt := h.length_ancestorsFrom_lt hlive a.size
  obtain ⟨more, rfl⟩ := Nat.exists_eq_add_of_le hroom
  rw [ancestorsFrom_add hlt, ancestors, ancestorsFrom_add hlt]

/-- The walk up goes to the parent and on from there. -/
theorem Linked.ancestors_of_parent? (h : a.Linked) {id parent : Nat}
    (hparent : a.parent? id = some parent) : a.ancestors id = parent :: a.ancestors parent := by
  have hlive : a.contains parent = true := contains_of_mem_childrenOf (h.links.2 hparent)
  rw [ancestors, ancestorsFrom, hparent]
  exact congrArg (parent :: ·) (h.ancestorsFrom_eq hlive (Nat.le_refl _))

/-- The last node that is come to is the root. -/
theorem Linked.getLast?_ancestors (h : a.Linked) {id : Nat} (hlive : a.contains id = true) :
    (id :: a.ancestors id).getLast? = some rootId := by
  have hbelow := h.grounded hlive
  clear hlive
  induction hbelow with
  | self =>
    rw [ancestors, ancestorsFrom, h.root_top]
    rfl
  | child _ hparent ih =>
    rw [h.ancestors_of_parent? hparent, List.getLast?_cons_cons]
    exact ih

/-! ## Both ways -/

/-- What the traversals from a node list, whatever room they have. -/
structure Traversed (a : Arena) (s : Nat) : Prop where
  /-- The walk down is the recursive listing of the node and of what is below it. -/
  listing : ∀ depth, a.size ≤ depth → a.walk s = a.listing depth s
  cons : a.walk s = s :: (a.childrenOf s).flatMap a.walk
  once : (a.walk s).Nodup
  mem_iff : ∀ x, x ∈ a.walk s ↔ a.Below s x
  /-- The walk up goes from parent to parent, up to the root. -/
  chain : (s :: a.ancestors s).IsChain (fun x y => a.parent? x = some y)
  top : (s :: a.ancestors s).getLast? = some rootId
  /-- With room for all nodes, more room makes no difference. -/
  uncut : ∀ room, a.size ≤ room →
    a.walkFrom room [s] = a.walk s ∧ a.ancestorsFrom room s = a.ancestors s

theorem Linked.traversed (h : a.Linked) {s : Nat} (hlive : a.contains s = true) :
    a.Traversed s where
  listing _ hdepth := h.walk_eq_listing hlive hdepth
  cons := h.walk_eq_cons hlive
  once := h.nodup_walk hlive
  mem_iff _ := h.mem_walk_iff hlive
  chain := isChain_ancestorsFrom _ _
  top := h.getLast?_ancestors hlive
  uncut room hroom := by
    have hbelow := a.length_below_le_size s
    refine ⟨?_, h.ancestorsFrom_eq hlive hroom⟩
    rw [h.walk_eq_listing hlive (Nat.le_refl _)]
    exact h.walkFrom_eq_listing hlive hbelow (Nat.le_trans hbelow hroom)

/-! ## Nodes by kind -/

/-- The nodes of a kind are those of the walk that are of that kind, in the order of the walk. -/
theorem ofKind_eq_filter (s : Nat) (kind : Kind) :
    a.ofKind s kind = (a.walk s).filter (fun id => a.kind? id = some kind) := by
  refine List.filter_congr fun id _ => ?_
  rw [kind?]
  cases a.get? id <;> simp

theorem Linked.mem_ofKind_iff (h : a.Linked) {kind : Kind} {x : Nat} :
    x ∈ a.ofKind rootId kind ↔ a.kind? x = some kind := by
  rw [ofKind_eq_filter, List.mem_filter, decide_eq_true_iff, h.walk_root_perm.mem_iff, mem_live_iff]
  exact and_iff_right_of_imp contains_of_kind?

theorem mem_kindAll (kind : Kind) : kind ∈ Kind.all := by
  cases kind <;> decide

/-- **Each live node is found under one kind.** -/
theorem Linked.flatMap_ofKind_perm (h : a.Linked) :
    (Kind.all.flatMap (a.ofKind rootId)).Perm (a.walk rootId) := by
  have hwalk := h.nodup_walk h.root_live
  refine (List.perm_ext_iff_of_nodup (List.nodup_flatMap.2 ⟨fun kind _ => ?_, ?_⟩) hwalk).2 ?_
  · rw [ofKind_eq_filter]
    exact hwalk.filter _
  · refine List.Pairwise.imp ?_ (show Kind.all.Nodup by decide)
    intro kind kind' hne x hx hx'
    rw [h.mem_ofKind_iff] at hx hx'
    exact hne (Option.some.inj (hx.symm.trans hx'))
  · intro x
    rw [List.mem_flatMap, h.walk_root_perm.mem_iff, mem_live_iff]
    simp only [h.mem_ofKind_iff]
    constructor
    · rintro ⟨kind, -, hkind⟩
      exact contains_of_kind? hkind
    · intro hlive
      obtain ⟨slot, hslot⟩ := Option.isSome_iff_exists.1 hlive
      exact ⟨slot.kind, mem_kindAll _, kind?_of_get? hslot⟩

/-- Counts of zero can be left out of a sum. -/
theorem sum_filter_ne_zero (counts : List (Kind × Nat)) :
    ((counts.filter (fun (_, count) => count ≠ 0)).map Prod.snd).sum =
      (counts.map Prod.snd).sum := by
  induction counts with
  | nil => rfl
  | cons entry rest ih =>
    obtain ⟨kind, count⟩ := entry
    by_cases hzero : count = 0
    · rw [List.filter_cons_of_neg (by simp [hzero]), ih, List.map_cons, List.sum_cons, hzero,
        Nat.zero_add]
    · rw [List.filter_cons_of_pos (by simp [hzero]), List.map_cons, List.map_cons, List.sum_cons,
        List.sum_cons, ih]

theorem Linked.sum_countByKind (h : a.Linked) : (a.countByKind.map Prod.snd).sum = a.size := by
  have hlength := (h.flatMap_ofKind_perm.trans h.walk_root_perm).length_eq
  rw [a.length_live, List.length_flatMap] at hlength
  rw [countByKind, sum_filter_ne_zero, List.map_map]
  exact hlength

/-! ## Edited arenas -/

/-- **Traversals are complete.** Whatever tree an arena is made of and however it is edited: from
    every live node the walk down lists the node and what is below it, each once and in document
    order, and the walk up is the chain of parents that ends with the root, which has none; both are
    never cut off. From the root every live node is listed, each of them is found under its kind
    and no other, and the counts by kind come to the number of the nodes. -/
theorem traversals_complete (tree : Node) (edits : List Edit) :
    let a := (ofTree tree).run edits
    (∀ s, a.contains s = true → a.Traversed s) ∧
      (a.parent? rootId = none ∧ (a.walk rootId).Nodup ∧
        ∀ x, x ∈ a.walk rootId ↔ a.contains x = true) ∧
      ((∀ kind x, x ∈ a.ofKind rootId kind ↔ a.kind? x = some kind) ∧
        (Kind.all.flatMap (a.ofKind rootId)).Perm (a.walk rootId)) ∧
      (a.countByKind.map Prod.snd).sum = a.size := by
  intro a
  have h : a.Linked := (linked_ofTree tree).run edits
  have hroot : ∀ x, x ∈ a.walk rootId ↔ a.contains x = true :=
    fun _ => h.walk_root_perm.mem_iff.trans mem_live_iff
  exact ⟨fun _ hlive => h.traversed hlive, ⟨h.root_top, h.nodup_walk h.root_live, hroot⟩,
    ⟨fun _ _ => h.mem_ofKind_iff, h.flatMap_ofKind_perm⟩, h.sum_countByKind⟩

/-- Two rules with selectors, one of them with a declaration. -/
def twoRules : Node :=
  .root [.rule [.selector ".a", .declaration "top" "1"], .rule [.selector ".b"]]

/-- The second rule is moved into a new one in the first. -/
def nesting : List Edit := [.insert 1 .rule [], .reparent 4 6]

theorem traversals_complete_nested :
    let a := (ofTree twoRules).run nesting
    a.contains 1 = true ∧ a.Traversed 1 ∧ a.walk rootId = [0, 1, 2, 3, 6, 4, 5] ∧
      a.ancestors 5 = [4, 6, 1, 0] ∧ (a.countByKind.map Prod.snd).sum = 7 := by
  obtain ⟨htraversed, -, -, hsum⟩ := traversals_complete twoRules nesting
  have hlive : ((ofTree twoRules).run nesting).contains 1 = true := by decide +kernel
  have hroot := (htraversed rootId (by decide +kernel)).listing 7 (by decide +kernel)
  exact ⟨hlive, htraversed 1 hlive, hroot.trans (by decide +kernel), by decide +kernel,
    hsum.trans (by decide +kernel)⟩

end Arena

end Theming.Sheet
