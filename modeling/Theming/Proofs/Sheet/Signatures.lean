import Mathlib.Data.List.Forall2
import Mathlib.Data.List.Nodup
import Mathlib.Tactic.Choose
import Theming.Proofs.Sheet.Arenas
import Theming.Proofs.Sheet.Pruning

set_option autoImplicit false

/-! # Signatures

The signature of a tree lists the kind, the properties and the number of children of each node, in
document order. The number of children says where the list of a subtree ends, so the signature
determines the tree (`Node.signature_inj`).

An edited arena whose links are in order has the signature of its tree (`Linked.signature_toTree`),
and two of them have the same tree just when they are the same but for the numbers of their nodes
(`isomorphic_iff_toTree_eq`). Both are read off the same fact, that the tree of the arena stands at
its root (`Linked.holds_toTree`). -/

namespace Theming.Sheet

open Node

/-! ## The signature determines the tree -/

namespace Node

/-- What the signature tells of one node. -/
def row (n : Node) : Kind × Table String × Nat := (n.kind, n.properties, n.children.length)

mutual

/-- A signature ends where it ends, whatever stands behind it. -/
theorem rows_append_inj (n n' : Node) (rest rest' : List (Kind × Table String × Nat))
    (h : n.preorder.map row ++ rest = n'.preorder.map row ++ rest') : n = n' ∧ rest = rest' := by
  obtain ⟨k, p, c⟩ := n
  obtain ⟨k', p', c'⟩ := n'
  rw [preorder, preorder, List.map_cons, List.map_cons, List.cons_append, List.cons_append] at h
  obtain ⟨hrow, hbelow⟩ := List.cons.inj h
  simp only [row, kind_mk, properties_mk, children_mk, Prod.mk.injEq] at hrow
  obtain ⟨hk, hp, hlength⟩ := hrow
  obtain ⟨hc, hrest⟩ := rowsAll_append_inj c c' rest rest' hlength hbelow
  exact ⟨by rw [hk, hp, hc], hrest⟩
termination_by structural n

/-- How many trees there are is told by the node above them. -/
theorem rowsAll_append_inj (nodes nodes' : List Node)
    (rest rest' : List (Kind × Table String × Nat)) (hlength : nodes.length = nodes'.length)
    (h : (preorderAll nodes).map row ++ rest = (preorderAll nodes').map row ++ rest') :
    nodes = nodes' ∧ rest = rest' := by
  cases nodes with
  | nil =>
    obtain rfl : nodes' = [] := List.length_eq_zero_iff.1 hlength.symm
    exact ⟨rfl, h⟩
  | cons n more =>
    cases nodes' with
    | nil => cases hlength
    | cons n' more' =>
      rw [preorderAll, preorderAll, List.map_append, List.map_append, List.append_assoc,
        List.append_assoc] at h
      obtain ⟨hn, hmore⟩ := rows_append_inj n n' _ _ h
      obtain ⟨hall, hrest⟩ :=
        rowsAll_append_inj more more' rest rest' (Nat.succ.inj hlength) hmore
      exact ⟨by rw [hn, hall], hrest⟩
termination_by structural nodes

end

/-- **Trees with the same signature are equal.** -/
theorem signature_inj {n n' : Node} (h : n.signature = n'.signature) : n = n' :=
  (rows_append_inj n n' [] [] (congrArg (· ++ []) h)).1

end Node

namespace Arena

variable {a b : Arena}

/-! ## The tree of an arena stands at its root -/

theorem holdsAll_iff {low : Nat} {ids : List Nat} {nodes : List Node} :
    HoldsAll a low ids nodes ↔ List.Forall₂ (Holds a low) ids nodes := by
  induction nodes generalizing ids with
  | nil => rw [HoldsAll, List.forall₂_nil_right_iff]
  | cons n rest ih =>
    simp only [HoldsAll, ih, List.forall₂_cons_right_iff]
    exact exists_congr fun id => exists_congr fun more =>
      ⟨fun ⟨hids, hself, hmore⟩ => ⟨hself, hmore, hids⟩,
        fun ⟨hself, hmore, hids⟩ => ⟨hids, hself, hmore⟩⟩

theorem holds_iff {id : Nat} {n : Node} :
    Holds a 0 id n ↔ ∃ slot, a.get? id = some slot ∧ slot.kind = n.kind ∧
      slot.properties = n.properties ∧ List.Forall₂ (Holds a 0) slot.children n.children := by
  obtain ⟨kind, properties, children⟩ := n
  simp only [Holds, holdsAll_iff, Nat.zero_le, true_and]
  rfl

theorem Holds.contains {id : Nat} {n : Node} (h : Holds a 0 id n) : a.contains id = true := by
  obtain ⟨slot, hslot, -⟩ := holds_iff.1 h
  exact contains_of_get? hslot

theorem Holds.children {id : Nat} {n : Node} (h : Holds a 0 id n) :
    List.Forall₂ (Holds a 0) (a.childrenOf id) n.children := by
  obtain ⟨slot, hslot, -, -, hchildren⟩ := holds_iff.1 h
  rw [childrenOf_of_get? hslot]
  exact hchildren

/-- What stands at a node is one tree. -/
theorem Holds.unique {id : Nat} {n m : Node} (hn : Holds a 0 id n) (hm : Holds a 0 id m) :
    n = m :=
  (Holds.subtree_eq n (Nat.le_max_left n.size m.size) hn).symm.trans
    (Holds.subtree_eq m (Nat.le_max_right n.size m.size) hm)

/-- Read off deep enough, the tree below a node stands at it. -/
theorem Linked.holds_subtree (h : a.Linked) {depth id : Nat} (hlive : a.contains id = true)
    (hdepth : (a.below id).length ≤ depth) : Holds a 0 id (a.subtree depth id) := by
  induction depth generalizing id with
  | zero =>
    rw [(h.below_perm hlive).length_eq] at hdepth
    exact absurd hdepth (Nat.not_succ_le_zero _)
  | succ depth ih =>
    obtain ⟨slot, hslot⟩ := Option.isSome_iff_exists.1 hlive
    have hchildren := childrenOf_of_get? hslot
    rw [subtree_of_get? hslot]
    refine holds_iff.2 ⟨slot, hslot, rfl, rfl, ?_⟩
    rw [children_mk, List.forall₂_map_right_iff, List.forall₂_same]
    intro child hchild
    rw [← hchildren] at hchild
    have hlt := h.length_below_lt hchild
    exact ih (contains_of_parent? (h.links.1 hchild)) (by omega)

theorem Linked.holds_toTree (h : a.Linked) : Holds a 0 rootId a.toTree :=
  h.holds_subtree h.root_live (a.length_below_le rootId)

/-! ## The signature of an arena -/

/-- What the signature tells of some nodes. -/
def rowsOf (a : Arena) (ids : List Nat) : List (Kind × Table String × Nat) :=
  ids.filterMap (fun id =>
    (a.get? id).map (fun slot => (slot.kind, slot.properties, slot.children.length)))

mutual

/-- A walk lists the tree at the node that it comes to and goes on with the rest of the stack. -/
theorem rowsOf_walkFrom : ∀ (n : Node) (room : Nat) (stack : List Nat) {id : Nat}, Holds a 0 id n →
    a.rowsOf (a.walkFrom (n.size + room) (id :: stack)) =
      n.preorder.map row ++ a.rowsOf (a.walkFrom room stack)
  | .mk kind properties children, room, stack, id, h => by
    have hbelow := rowsOf_walkFromAll children room stack h.children
    obtain ⟨slot, hslot, hkind, hproperties, hchildren⟩ := holds_iff.1 h
    have hrow : (slot.kind, slot.properties, slot.children.length) =
        (Node.mk kind properties children).row := by
      rw [hkind, hproperties, hchildren.length_eq]
      rfl
    have hroom : (Node.mk kind properties children).size + room =
        sizeAll children + room + 1 := by
      rw [Node.size, Nat.add_right_comm]
    rw [hroom, walkFrom, if_pos h.contains, rowsOf, List.filterMap_cons, hslot, Option.map_some,
      hrow, preorder, List.map_cons, List.cons_append]
    exact congrArg (_ :: ·) hbelow
termination_by structural n => n

theorem rowsOf_walkFromAll : ∀ (nodes : List Node) (room : Nat) (stack : List Nat)
    {ids : List Nat}, List.Forall₂ (Holds a 0) ids nodes →
    a.rowsOf (a.walkFrom (sizeAll nodes + room) (ids ++ stack)) =
      (preorderAll nodes).map row ++ a.rowsOf (a.walkFrom room stack)
  | [], room, stack, ids, h => by
    rw [List.forall₂_nil_right_iff.1 h, sizeAll, Nat.zero_add]
    rfl
  | n :: rest, room, stack, ids, h => by
    obtain ⟨id, more, hself, hmore, rfl⟩ := List.forall₂_cons_right_iff.1 h
    rw [sizeAll, Nat.add_assoc, List.cons_append, rowsOf_walkFrom n _ _ hself,
      rowsOf_walkFromAll rest room stack hmore, preorderAll, List.map_append, List.append_assoc]
termination_by structural nodes => nodes

end

/-- **The signature of an arena is that of its tree.** -/
theorem Linked.signature_toTree (h : a.Linked) : a.toTree.signature = a.signature := by
  have hwalk := rowsOf_walkFrom a.toTree 1 [] h.holds_toTree
  rw [h.size_toTree, walkFrom] at hwalk
  exact (hwalk.trans (List.append_nil _)).symm

/-! ## Isomorphic arenas -/

/-- A renumbering of the live nodes under which kinds, properties, parents and children with their
    order are the same. -/
structure Isomorphism (a b : Arena) (f : Nat → Nat) : Prop where
  root : f rootId = rootId
  injective : ∀ id id', a.contains id = true → a.contains id' = true → f id = f id' → id = id'
  surjective : ∀ id', b.contains id' = true → ∃ id, a.contains id = true ∧ f id = id'
  slot : ∀ id slot, a.get? id = some slot →
    b.get? (f id) = some ⟨slot.kind, slot.properties, slot.parent.map f, slot.children.map f⟩

/-- Two arenas are the same but for the numbers of their nodes. -/
def Isomorphic (a b : Arena) : Prop := ∃ f, Isomorphism a b f

/-- Isomorphic arenas hold the same trees at corresponding nodes. -/
theorem Isomorphism.holds {f : Nat → Nat} (h : Isomorphism a b f) {n : Node} {id : Nat}
    (hn : Holds a 0 id n) : Holds b 0 (f id) n := by
  induction n using children_induction generalizing id with
  | step n ih =>
    obtain ⟨slot, hslot, hkind, hproperties, hchildren⟩ := holds_iff.1 hn
    refine holds_iff.2 ⟨_, h.slot id slot hslot, hkind, hproperties, ?_⟩
    rw [List.forall₂_map_left_iff]
    refine List.forall₂_iff_get.2 ⟨hchildren.length_eq, fun i hi hi' => ?_⟩
    exact ih _ (List.get_mem _ _) (hchildren.get hi hi')

/-- Two nodes that are reached from the roots by the same steps. -/
inductive Paired (a b : Arena) : Nat → Nat → Prop
  | top : Paired a b rootId rootId
  | child {id id' c c' i : Nat} (h : Paired a b id id') (hc : (a.childrenOf id)[i]? = some c)
    (hc' : (b.childrenOf id')[i]? = some c') : Paired a b c c'

namespace Paired

variable {x y : Nat}

theorem symm (h : Paired a b x y) : Paired b a y x := by
  induction h with
  | top => exact .top
  | child _ hc hc' ih => exact ih.child hc' hc

/-- No node is reached by two different ways. -/
theorem unique (ha : a.Linked) (h : Paired a b x y) {z : Nat} (hz : Paired a b x z) : y = z := by
  have hup : ∀ {id c i : Nat}, (a.childrenOf id)[i]? = some c → a.parent? c = some id :=
    fun hc => ha.links.1 (List.mem_of_getElem? hc)
  have hroot : ∀ {id i : Nat}, (a.childrenOf id)[i]? ≠ some rootId := by
    intro id i hc
    have hparent := hup hc
    rw [ha.root_top] at hparent
    cases hparent
  induction h generalizing z with
  | top =>
    generalize hx : rootId = x at hz
    cases hz with
    | top => rfl
    | child _ hc _ => exact absurd (hx ▸ hc) hroot
  | @child id id' c c' i _ hc hc' ih =>
    cases hz with
    | top => exact absurd hc hroot
    | @child id₂ id₂' _ _ j hz hcz hcz' =>
      obtain rfl : id = id₂ := Option.some.inj ((hup hc).symm.trans (hup hcz))
      obtain rfl : i = j :=
        (List.getElem?_inj (List.getElem?_eq_some_iff.1 hc).1 (ha.nodup id)).1 (hc.trans hcz.symm)
      obtain rfl := ih hz
      exact Option.some.inj (hc'.symm.trans hcz')

theorem parents (ha : a.Linked) (hb : b.Linked) (h : Paired a b x y) :
    (a.parent? x = none ∧ b.parent? y = none) ∨
      ∃ id id', a.parent? x = some id ∧ b.parent? y = some id' ∧ Paired a b id id' := by
  cases h with
  | top => exact Or.inl ⟨ha.root_top, hb.root_top⟩
  | child h hc hc' =>
    exact Or.inr ⟨_, _, ha.links.1 (List.mem_of_getElem? hc),
      hb.links.1 (List.mem_of_getElem? hc'), h⟩

/-- Where the same tree stands at both roots, the same tree stands at paired nodes. -/
theorem holds {tree : Node} (ha : Holds a 0 rootId tree) (hb : Holds b 0 rootId tree)
    (h : Paired a b x y) : ∃ n, Holds a 0 x n ∧ Holds b 0 y n := by
  induction h with
  | top => exact ⟨tree, ha, hb⟩
  | child _ hc hc' ih =>
    obtain ⟨n, hx, hy⟩ := ih
    obtain ⟨hi, rfl⟩ := List.getElem?_eq_some_iff.1 hc
    obtain ⟨hi', rfl⟩ := List.getElem?_eq_some_iff.1 hc'
    have hlength := hx.children.length_eq ▸ hi
    exact ⟨_, hx.children.get hi hlength, hy.children.get hi' hlength⟩

/-- Then each live node of the one is paired with one of the other. -/
theorem exists_of_contains {tree : Node} (hlinked : a.Linked) (ha : Holds a 0 rootId tree)
    (hb : Holds b 0 rootId tree) (hlive : a.contains x = true) : ∃ y, Paired a b x y := by
  have hbelow := hlinked.grounded hlive
  clear hlive
  induction hbelow with
  | self => exact ⟨rootId, .top⟩
  | child _ hparent ih =>
    obtain ⟨id', hpair⟩ := ih
    obtain ⟨i, hc⟩ := List.getElem?_of_mem (hlinked.links.2 hparent)
    obtain ⟨n, hx, hy⟩ := hpair.holds ha hb
    have hi : i < (b.childrenOf id').length := by
      rw [hy.children.length_eq, ← hx.children.length_eq]
      exact (List.getElem?_eq_some_iff.1 hc).1
    exact ⟨_, hpair.child hc (List.getElem?_eq_getElem hi)⟩

end Paired

/-- Arenas in which the same tree stands at the root are isomorphic: nodes correspond if they are
    reached by the same steps. -/
theorem isomorphic_of_holds {tree : Node} (hla : a.Linked) (hlb : b.Linked)
    (ha : Holds a 0 rootId tree) (hb : Holds b 0 rootId tree) : Isomorphic a b := by
  have htotal : ∀ x, ∃ y, a.contains x = true → Paired a b x y := fun x => by
    by_cases hx : a.contains x = true
    · obtain ⟨y, hy⟩ := Paired.exists_of_contains hla ha hb hx
      exact ⟨y, fun _ => hy⟩
    · exact ⟨x, fun h => absurd h hx⟩
  choose f hf using htotal
  have hself : ∀ {x y}, Paired a b x y → f x = y := fun {x y} hpair => by
    obtain ⟨n, hx, -⟩ := hpair.holds ha hb
    exact (hf x hx.contains).unique hla hpair
  refine ⟨f, hself .top, ?_, ?_, ?_⟩
  · intro id id' hid hid' heq
    exact (hf id hid).symm.unique hlb (heq ▸ (hf id' hid').symm)
  · intro id' hid'
    obtain ⟨id, hpair⟩ := Paired.exists_of_contains hlb hb ha hid'
    obtain ⟨n, hx, -⟩ := hpair.symm.holds ha hb
    exact ⟨id, hx.contains, hself hpair.symm⟩
  · intro id slot hslot
    have hid := contains_of_get? hslot
    have hpair := hf id hid
    obtain ⟨n, hx, hy⟩ := hpair.holds ha hb
    obtain ⟨slot', hslot', hkind', hproperties', hchildren'⟩ := holds_iff.1 hy
    obtain ⟨s, hs, hkind, hproperties, hchildren⟩ := holds_iff.1 hx
    obtain rfl : slot = s := Option.some.inj (hslot.symm.trans hs)
    have hparents : slot'.parent = slot.parent.map f := by
      have hup : a.parent? id = slot.parent := by rw [parent?, hslot]; rfl
      have hup' : b.parent? (f id) = slot'.parent := by rw [parent?, hslot']; rfl
      rw [← hup, ← hup']
      rcases hpair.parents hla hlb with ⟨hnone, hnone'⟩ | ⟨p, p', hp, hp', hparent⟩
      · rw [hnone, hnone', Option.map_none]
      · rw [hp, hp', Option.map_some, hself hparent]
    have hlist : slot'.children = slot.children.map f := by
      apply List.ext_getElem
      · rw [List.length_map, hchildren'.length_eq, hchildren.length_eq]
      · intro i hi' hi
        rw [List.getElem_map]
        rw [List.length_map] at hi
        refine (hself (hpair.child (i := i) ?_ ?_)).symm
        · rw [childrenOf_of_get? hslot]
          exact List.getElem?_eq_getElem hi
        · rw [childrenOf_of_get? hslot']
          exact List.getElem?_eq_getElem hi'
    rw [hslot']
    obtain ⟨kind, properties, parent, children⟩ := slot'
    simp only at hkind' hproperties' hparents hlist
    rw [hkind', hproperties', hparents, hlist, ← hkind, ← hproperties]

/-- **Arenas are isomorphic just when they have the same tree**, if their links are in order. -/
theorem isomorphic_iff_toTree_eq (ha : a.Linked) (hb : b.Linked) :
    Isomorphic a b ↔ a.toTree = b.toTree := by
  constructor
  · rintro ⟨f, hf⟩
    exact (hf.root ▸ hf.holds ha.holds_toTree).unique hb.holds_toTree
  · intro h
    exact isomorphic_of_holds ha hb ha.holds_toTree (h ▸ hb.holds_toTree)

end Arena

end Theming.Sheet
