import Mathlib.Data.List.Nodup
import Theming.Proofs.Sheet.Edits

set_option autoImplicit false

/-! # Arenas and trees

An arena whose structure passes its check is a tree with a root on top
(`defect?_eq_none_iff_rooted`), and then it has as many live nodes as that tree has nodes, and what
is wrong with one is wrong with the other (`Linked.size_toTree`, `Linked.defect?_toTree`). The arena
that is made of a tree holds that tree (`toTree_ofTree`).

Trees are read off an arena down to a given depth. For a node that is enough if there are no more
nodes below it: `Linked.below_perm` counts them through the children. -/

namespace Theming.Sheet

open Node

namespace Arena

variable {a b : Arena}

/-! ## What the check finds -/

/-- If no link is found to be wrong, every node that is left was reached once, from the stack or
    from a parent, and its links to its children are sound. -/
theorem checkLinks_eq_none {unseen stack : List Nat} (hnodup : unseen.Nodup)
    (h : a.checkLinks unseen stack = none) :
    stack.Nodup ∧ (∀ x ∈ stack, x ∈ unseen) ∧
      ∀ x ∈ unseen, (x ∈ stack ∨ ∃ y ∈ unseen, x ∈ a.childrenOf y) ∧
        (∃ s ∈ stack, a.Below s x) ∧ (a.childrenOf x).Nodup ∧
        ∀ child ∈ a.childrenOf x, a.linkDefect? x child = none := by
  fun_induction checkLinks a unseen stack with
  | case1 unseen hempty =>
    rw [List.isEmpty_iff.1 hempty]
    exact ⟨List.nodup_nil, fun _ hx => (by cases hx), fun _ hx => by cases hx⟩
  | case2 unseen hempty => cases h
  | case3 unseen id stack hid defect hfound => cases h
  | case4 unseen id stack hid hfound ih =>
    have hlinks := List.findSome?_eq_none_iff.1 hfound
    have herase : ∀ {x}, x ∈ unseen.erase id ↔ x ≠ id ∧ x ∈ unseen := hnodup.mem_erase_iff
    obtain ⟨hstack, hsub, hrest⟩ := ih (hnodup.erase id) h
    obtain ⟨hchildren, hbelow, hapart⟩ := List.nodup_append.1 hstack
    have hup : ∀ {x}, x ∈ a.childrenOf id → a.parent? x = some id := by
      intro x hx
      have hlink := hlinks x hx
      unfold linkDefect? at hlink
      split at hlink
      · cases hlink
      · next hsound => exact Decidable.not_not.1 (not_or.1 hsound).1
    refine ⟨List.nodup_cons.2 ⟨fun hmem => ?_, hbelow⟩, ?_, ?_⟩
    · exact (herase.1 (hsub id (List.mem_append_right _ hmem))).1 rfl
    · refine List.forall_mem_cons.2 ⟨hid, fun x hx => ?_⟩
      exact (herase.1 (hsub x (List.mem_append_right _ hx))).2
    · intro x hx
      by_cases hxid : x = id
      · subst hxid
        exact ⟨Or.inl List.mem_cons_self, ⟨x, List.mem_cons_self, .self⟩,
          List.nodup_reverse.1 hchildren, hlinks⟩
      · obtain ⟨hfrom, ⟨s, hs, hsx⟩, hown⟩ := hrest x (herase.2 ⟨hxid, hx⟩)
        refine ⟨?_, ?_, hown⟩
        · rcases hfrom with hmem | ⟨y, hy, hmem⟩
          · rcases List.mem_append.1 hmem with hmem | hmem
            · exact Or.inr ⟨id, hid, List.mem_reverse.1 hmem⟩
            · exact Or.inl (List.mem_cons_of_mem id hmem)
          · exact Or.inr ⟨y, (herase.1 hy).2, hmem⟩
        · rcases List.mem_append.1 hs with hs | hs
          · exact ⟨id, List.mem_cons_self,
              (Below.self.child (hup (List.mem_reverse.1 hs))).trans hsx⟩
          · exact ⟨s, List.mem_cons_of_mem id hs, hsx⟩
  | case5 unseen id stack hid => cases h

theorem linkDefect?_eq_none {id child : Nat} (h : a.linkDefect? id child = none) :
    a.parent? child = some id ∧ a.contains child = true ∧ a.kind? child ≠ some .root := by
  unfold linkDefect? at h
  split at h
  · cases h
  · next hsound =>
    split at h
    · cases h
    · next hkind =>
      obtain ⟨hparent, hlive⟩ := not_or.1 hsound
      exact ⟨Decidable.not_not.1 hparent, by simpa using hlive, hkind⟩

/-- **An arena passes its check exactly if it is a tree with a root on top**, and with no other
    root. -/
theorem defect?_eq_none_iff_rooted : a.defect? = none ↔ a.Rooted := by
  refine ⟨fun h => ?_, Rooted.defect?_eq⟩
  unfold defect? at h
  split at h
  · cases h
  · next htop =>
    obtain ⟨hkind, hparent⟩ := not_or.1 htop
    rw [Decidable.not_not] at hkind
    rw [Bool.not_eq_true, Option.isSome_eq_false_iff, Option.isNone_iff_eq_none] at hparent
    obtain ⟨-, -, hall⟩ := checkLinks_eq_none a.nodup_live h
    have hlink : ∀ {id child}, child ∈ a.childrenOf id → a.parent? child = some id ∧
        a.contains child = true ∧ a.kind? child ≠ some .root := by
      intro id child hchild
      have hid := mem_live_iff.2 (contains_of_mem_childrenOf hchild)
      exact linkDefect?_eq_none ((hall id hid).2.2.2 child hchild)
    have hfrom : ∀ {x}, a.contains x = true → x ≠ rootId → ∃ y, x ∈ a.childrenOf y := by
      intro x hx hne
      rcases (hall x (mem_live_iff.2 hx)).1 with hmem | ⟨y, -, hy⟩
      · exact absurd (List.mem_singleton.1 hmem) hne
      · exact ⟨y, hy⟩
    refine ⟨⟨contains_of_kind? hkind, hparent, ?_, ?_, ?_⟩, hkind, ?_⟩
    · intro id child
      refine ⟨fun hchild => (hlink hchild).1, fun hup => ?_⟩
      obtain ⟨y, hy⟩ := hfrom (contains_of_parent? hup) (fun heq => by
        rw [heq, hparent] at hup
        cases hup)
      obtain rfl := Option.some.inj ((hlink hy).1.symm.trans hup)
      exact hy
    · intro id
      cases hid : a.contains id with
      | true => exact (hall id (mem_live_iff.2 hid)).2.2.1
      | false =>
        have hnone : a.childrenOf id = [] := by
          apply List.eq_nil_iff_forall_not_mem.2
          intro child hchild
          rw [contains_of_mem_childrenOf hchild] at hid
          cases hid
        rw [hnone]
        exact List.nodup_nil
    · intro id hid
      obtain ⟨s, hs, hbelow⟩ := (hall id (mem_live_iff.2 hid)).2.1
      exact List.mem_singleton.1 hs ▸ hbelow
    · intro id hid
      by_contra hne
      obtain ⟨y, hy⟩ := hfrom (contains_of_kind? hid) hne
      exact (hlink hy).2.2 hid

/-! ## Counting the nodes below a node -/

theorem length_below_le (a : Arena) (id : Nat) : (a.below id).length ≤ a.slots.length := by
  refine Nat.le_trans (List.length_filter_le _ _) (Nat.le_trans (List.length_filter_le _ _) ?_)
  exact Nat.le_of_eq List.length_range

/-- **Below a node are the node itself and what is below its children.** -/
theorem Linked.below_perm (h : a.Linked) {id : Nat} (hlive : a.contains id = true) :
    (a.below id).Perm (id :: (a.childrenOf id).flatMap a.below) := by
  have hchild : ∀ {child}, child ∈ a.childrenOf id →
      a.parent? child = some id ∧ a.contains child = true :=
    fun hmem => ⟨h.links.1 hmem, contains_of_parent? (h.links.1 hmem)⟩
  refine (List.perm_ext_iff_of_nodup (a.nodup_below id) ?_).2 ?_
  · refine List.nodup_cons.2 ⟨fun hmem => ?_, List.nodup_flatMap.2 ⟨fun c _ => a.nodup_below c, ?_⟩⟩
    · obtain ⟨child, hmem, hbelow⟩ := List.mem_flatMap.1 hmem
      obtain ⟨hparent, hc⟩ := hchild hmem
      exact h.acyclic hparent ((mem_below_iff hc).1 hbelow)
    · refine List.Pairwise.imp_of_mem ?_ (h.nodup id)
      intro s t hs ht hne x hxs hxt
      obtain ⟨hsup, hsl⟩ := hchild hs
      obtain ⟨htup, htl⟩ := hchild ht
      exact h.siblings hne hsup htup ((mem_below_iff hsl).1 hxs) ((mem_below_iff htl).1 hxt)
  · intro x
    rw [mem_below_iff hlive, List.mem_cons, List.mem_flatMap]
    constructor
    · intro hbelow
      rcases hbelow.first with rfl | ⟨child, hparent, hbelow⟩
      · exact Or.inl rfl
      · exact Or.inr ⟨child, h.links.2 hparent,
          (mem_below_iff (contains_of_parent? hparent)).2 hbelow⟩
    · rintro (rfl | ⟨child, hmem, hbelow⟩)
      · exact .self
      · obtain ⟨hparent, hc⟩ := hchild hmem
        exact (Below.self.child hparent).trans ((mem_below_iff hc).1 hbelow)

/-! ## The tree of an arena -/

theorem preorderAll_eq_flatMap (nodes : List Node) :
    preorderAll nodes = nodes.flatMap preorder := by
  induction nodes with
  | nil => rfl
  | cons n rest ih => rw [preorderAll, ih, List.flatMap_cons]

mutual

theorem length_preorder : ∀ n : Node, n.preorder.length = n.size
  | .mk _ _ children => by
    rw [preorder, Node.size, List.length_cons, length_preorderAll children]
termination_by structural n => n

theorem length_preorderAll : ∀ nodes : List Node, (preorderAll nodes).length = sizeAll nodes
  | [] => rfl
  | n :: rest => by
    rw [preorderAll, sizeAll, List.length_append, length_preorder n, length_preorderAll rest]
termination_by structural nodes => nodes

end

theorem subtree_of_get? {id : Nat} {slot : Slot} (h : a.get? id = some slot) (depth : Nat) :
    a.subtree (depth + 1) id =
      .mk slot.kind slot.properties (slot.children.map (a.subtree depth)) := by
  rw [subtree, h]

/-- The kinds of some nodes. -/
def kindsOf (nodes : List Node) : List (Option Kind) := nodes.map (fun m => some m.kind)

theorem Linked.length_below_lt (h : a.Linked) {id child : Nat} (hchild : child ∈ a.childrenOf id) :
    (a.below child).length < (a.below id).length := by
  have hlive := contains_of_mem_childrenOf hchild
  rw [(h.below_perm hlive).length_eq, List.length_cons]
  refine Nat.lt_succ_of_le ((a.nodup_below child).length_le_of_subset (fun x hx => ?_))
  exact List.mem_flatMap.2 ⟨child, hchild, hx⟩

/-- Read off deep enough, the tree below a node has the kinds of the nodes that are below it. -/
theorem Linked.kinds_subtree (h : a.Linked) {depth id : Nat} (hlive : a.contains id = true)
    (hdepth : (a.below id).length ≤ depth) :
    (kindsOf (a.subtree depth id).preorder).Perm ((a.below id).map a.kind?) := by
  induction depth generalizing id with
  | zero =>
    rw [(h.below_perm hlive).length_eq] at hdepth
    cases hdepth
  | succ depth ih =>
    obtain ⟨slot, hslot⟩ := Option.isSome_iff_exists.1 hlive
    have hchildren := childrenOf_of_get? hslot
    have hkind := kind?_of_get? hslot
    have hbelow := (h.below_perm hlive).map a.kind?
    rw [List.map_cons, List.map_flatMap, hkind] at hbelow
    refine List.Perm.trans ?_ hbelow.symm
    rw [subtree_of_get? hslot, preorder, preorderAll_eq_flatMap, kindsOf, List.map_cons,
      List.flatMap_map, List.map_flatMap, hchildren]
    refine (List.Perm.flatMap_left _ fun child hchild => ?_).cons _
    rw [← hchildren] at hchild
    have hlt := h.length_below_lt hchild
    exact ih (contains_of_parent? (h.links.1 hchild)) (by omega)

theorem Linked.kinds_toTree (h : a.Linked) :
    (kindsOf a.toTree.preorder).Perm (a.live.map a.kind?) := by
  rw [← h.below_root]
  exact h.kinds_subtree h.root_live (a.length_below_le rootId)

/-- **The tree of an arena has as many nodes as the arena.** -/
theorem Linked.size_toTree (h : a.Linked) : a.toTree.size = a.size := by
  rw [← length_preorder, ← a.length_live]
  simpa [kindsOf] using h.kinds_toTree.length_eq

theorem Linked.kind_toTree (h : a.Linked) : a.kind? rootId = some a.toTree.kind := by
  obtain ⟨slot, hslot⟩ := Option.isSome_iff_exists.1 h.root_live
  have hlength := lt_length_of_contains h.root_live
  obtain ⟨depth, hdepth⟩ := Nat.exists_eq_add_of_lt hlength
  rw [toTree, hdepth, subtree_of_get? hslot, kind?, hslot]
  rfl

/-- The nodes below the top of the tree have the kinds of the live nodes other than the root. -/
theorem Linked.mem_kinds_children_iff (h : a.Linked) {kind : Kind} :
    (∃ m ∈ preorderAll a.toTree.children, m.kind = kind) ↔
      ∃ id ∈ List.range a.slots.length, id ≠ rootId ∧ a.kind? id = some kind := by
  have hperm := h.kinds_toTree
  have hroot : a.live.Perm (rootId :: a.live.erase rootId) :=
    List.perm_cons_erase (mem_live_iff.2 h.root_live)
  have hmem : some kind ∈ kindsOf (preorderAll a.toTree.children) ↔
      some kind ∈ (a.live.erase rootId).map a.kind? := by
    have hcons := hperm.trans (hroot.map a.kind?)
    rw [List.map_cons, h.kind_toTree] at hcons
    generalize a.toTree = tree at hcons ⊢
    obtain ⟨kind, properties, children⟩ := tree
    rw [preorder] at hcons
    exact (List.Perm.cons_inv hcons).mem_iff
  rw [kindsOf, List.mem_map, List.mem_map] at hmem
  simp only [Option.some.injEq] at hmem
  rw [hmem]
  constructor
  · rintro ⟨id, hid, hkind⟩
    obtain ⟨hne, -⟩ := a.nodup_live.mem_erase_iff.1 hid
    exact ⟨id, List.mem_range.2 (lt_length_of_contains (contains_of_kind? hkind)), hne, hkind⟩
  · rintro ⟨id, -, hne, hkind⟩
    exact ⟨id, a.nodup_live.mem_erase_iff.2 ⟨hne, mem_live_iff.2 (contains_of_kind? hkind)⟩, hkind⟩

/-- **What is wrong with an arena is wrong with its tree**, and the other way round. -/
theorem Linked.defect?_toTree (h : a.Linked) : a.toTree.defect? = a.defect? := by
  have hany : (preorderAll a.toTree.children).any (fun m => m.kind = .root) = true ↔
      ∃ id ∈ List.range a.slots.length, id ≠ rootId ∧ a.kind? id = some .root := by
    rw [← h.mem_kinds_children_iff]
    simp
  rw [h.defect?_eq, Node.defect?, h.kind_toTree]
  simp only [hany, ne_eq, Option.some.injEq]

/-! ## The arena of a tree -/

mutual

/-- A tree stands at a node: kinds, properties and children agree all the way down, and no number
    below a given one occurs. -/
def Holds (a : Arena) (low : Nat) (id : Nat) : Node → Prop
  | .mk kind properties children =>
    low ≤ id ∧ ∃ slot, a.get? id = some slot ∧ slot.kind = kind ∧ slot.properties = properties ∧
      HoldsAll a low slot.children children
termination_by structural n => n

/-- Trees stand at nodes, in order. -/
def HoldsAll (a : Arena) (low : Nat) (ids : List Nat) : List Node → Prop
  | [] => ids = []
  | n :: rest => ∃ id more, ids = id :: more ∧ Holds a low id n ∧ HoldsAll a low more rest
termination_by structural nodes => nodes

end

mutual

theorem Holds.congr {low low' : Nat} (hle : low' ≤ low)
    (hsame : ∀ x slot, low ≤ x → a.get? x = some slot → b.get? x = some slot) :
    ∀ (n : Node) {id : Nat}, Holds a low id n → Holds b low' id n
  | .mk kind properties children, id => by
    rintro ⟨hlow, slot, hslot, hkind, hproperties, hchildren⟩
    exact ⟨Nat.le_trans hle hlow, slot, hsame id slot hlow hslot, hkind, hproperties,
      HoldsAll.congr hle hsame children hchildren⟩
termination_by structural n => n

theorem HoldsAll.congr {low low' : Nat} (hle : low' ≤ low)
    (hsame : ∀ x slot, low ≤ x → a.get? x = some slot → b.get? x = some slot) :
    ∀ (nodes : List Node) {ids : List Nat}, HoldsAll a low ids nodes → HoldsAll b low' ids nodes
  | [], _ => fun h => h
  | n :: rest, _ => by
    rintro ⟨id, more, rfl, hself, hmore⟩
    exact ⟨id, more, rfl, Holds.congr hle hsame n hself, HoldsAll.congr hle hsame rest hmore⟩
termination_by structural nodes => nodes

end

mutual

/-- Read off deep enough, what stands at a node is the tree below it. -/
theorem Holds.subtree_eq {low : Nat} : ∀ (n : Node) {depth id : Nat}, n.size ≤ depth →
    Holds a low id n → a.subtree depth id = n
  | .mk kind properties children, depth, id => by
    rintro hdepth ⟨-, slot, hslot, rfl, rfl, hchildren⟩
    rw [Node.size] at hdepth
    obtain ⟨depth, rfl⟩ := Nat.exists_eq_add_of_le' (Nat.le_trans (Nat.le_add_left 1 _) hdepth)
    rw [subtree_of_get? hslot, HoldsAll.map_subtree_eq children (Nat.le_of_succ_le_succ hdepth)
      hchildren]
termination_by structural n => n

theorem HoldsAll.map_subtree_eq {low : Nat} : ∀ (nodes : List Node) {depth : Nat} {ids : List Nat},
    sizeAll nodes ≤ depth → HoldsAll a low ids nodes → ids.map (a.subtree depth) = nodes
  | [], _, _ => fun _ h => by
    rw [show _ = [] from h]
    rfl
  | n :: rest, depth, _ => by
    rintro hdepth ⟨id, more, rfl, hself, hmore⟩
    rw [sizeAll] at hdepth
    rw [List.map_cons, Holds.subtree_eq n (by omega) hself,
      HoldsAll.map_subtree_eq rest (by omega) hmore]
termination_by structural nodes => nodes

end

/-- What adding a tree does: its nodes get new numbers, the parent gets one more child, and no other
    node is changed. -/
structure Grafted (a b : Arena) (parent : Nat) (ids : List Nat) : Prop where
  linked : b.Linked
  other : ∀ x, x < a.slots.length → x ≠ parent → b.get? x = a.get? x
  parent : b.get? parent =
    (a.get? parent).map (fun slot => { slot with children := slot.children ++ ids })

theorem Grafted.refl (h : a.Linked) (parent : Nat) : Grafted a a parent [] where
  linked := h
  other _ _ _ := rfl
  parent := by
    cases a.get? parent with
    | none => rfl
    | some slot => simp

theorem host_of_contains {parent : Nat} (h : a.contains parent = true) :
    a.host parent = parent := by
  rw [host, if_pos h]

mutual

theorem graft_spec (parent : Nat) : ∀ (n : Node) {a : Arena}, a.Linked → a.contains parent = true →
    Grafted a (a.graft parent n) parent [a.slots.length] ∧
      Holds (a.graft parent n) a.slots.length a.slots.length n ∧
      (a.graft parent n).slots.length = a.slots.length + n.size
  | .mk kind properties children, a => by
    intro h hparent
    have hlt := lt_length_of_contains hparent
    have hget := h.get?_insert parent kind properties
    rw [host_of_contains hparent] at hget
    generalize hgrown : (a.insert parent kind properties).1 = grown at hget
    have hlength : grown.slots.length = a.slots.length + 1 := by
      rw [← hgrown, Arena.insert]
      simp [Arena.modify]
    have hnew := hget a.slots.length
    rw [if_pos rfl] at hnew
    have hlive := contains_of_get? hnew
    have hresult : a.graft parent (.mk kind properties children) =
        grown.graftAll a.slots.length children := by rw [← hgrown]; rfl
    obtain ⟨ids, ⟨hlinked, hother, hself⟩, hchildren, hsize⟩ :=
      graftAll_spec a.slots.length children (hgrown ▸ h.insert parent kind properties) hlive
    rw [hresult]
    rw [hnew] at hself
    refine ⟨⟨hlinked, ?_, ?_⟩, ⟨Nat.le_refl _, _, hself, rfl, rfl, ?_⟩, ?_⟩
    · intro x hx hne
      rw [hother x (by omega) (by omega), hget, if_neg (by omega), if_neg hne]
    · rw [hother parent (by omega) (by omega), hget, if_neg (by omega), if_pos rfl]
    · exact hchildren.congr (by omega) (fun _ _ _ hslot => hslot) children
    · rw [hsize, hlength, Node.size]
      omega
termination_by structural n => n

theorem graftAll_spec (parent : Nat) : ∀ (nodes : List Node) {a : Arena}, a.Linked →
    a.contains parent = true → ∃ ids, Grafted a (a.graftAll parent nodes) parent ids ∧
      HoldsAll (a.graftAll parent nodes) a.slots.length ids nodes ∧
      (a.graftAll parent nodes).slots.length = a.slots.length + sizeAll nodes
  | [], a => fun h _ => ⟨[], .refl h parent, rfl, rfl⟩
  | n :: rest, a => by
    intro h hparent
    have hlt := lt_length_of_contains hparent
    obtain ⟨⟨hlinked, hother, hself⟩, hfirst, hlength⟩ := graft_spec parent n h hparent
    have hstill : (a.graft parent n).contains parent = true := by
      rw [contains, hself, Option.isSome_map]
      exact hparent
    obtain ⟨ids, ⟨hlinked', hother', hself'⟩, hmore, hlength'⟩ :=
      graftAll_spec parent rest hlinked hstill
    have hresult : a.graftAll parent (n :: rest) = (a.graft parent n).graftAll parent rest := rfl
    rw [hresult]
    refine ⟨a.slots.length :: ids, ⟨hlinked', ?_, ?_⟩, ⟨_, _, rfl, ?_, ?_⟩, ?_⟩
    · intro x hx hne
      rw [hother' x (by omega) hne, hother x hx hne]
    · rw [hself', hself, Option.map_map]
      simp [Function.comp_def]
    · -- The trees that follow are added to the parent, and that is not among the new nodes.
      refine hfirst.congr (Nat.le_refl _) (fun x slot hx hslot => ?_) n
      have hx' : x < (a.graft parent n).slots.length :=
        lt_length_of_contains (contains_of_get? hslot)
      rw [hother' x hx' (by omega), hslot]
    · exact hmore.congr (by omega) (fun _ _ _ hslot => hslot) rest
    · rw [hlength', hlength, sizeAll]
      omega
termination_by structural nodes => nodes

end

theorem linked_single (kind : Kind) (properties : Table String) : (single kind properties).Linked :=
  (rooted_single properties).linked.modify rootId (f := fun slot => { slot with kind := kind })
    (fun _ => rfl) (fun _ => rfl)

/-- The links of the arena of any tree are in order. -/
theorem linked_ofTree (tree : Node) : (ofTree tree).Linked := by
  obtain ⟨ids, hgrafted, -, -⟩ :=
    graftAll_spec rootId tree.children (linked_single tree.kind tree.properties) rfl
  exact hgrafted.linked

/-- **The arena of a tree holds the tree.** -/
theorem toTree_ofTree (tree : Node) : (ofTree tree).toTree = tree := by
  obtain ⟨kind, properties, children⟩ := tree
  obtain ⟨ids, ⟨-, -, hself⟩, hchildren, hlength⟩ :=
    graftAll_spec rootId children (linked_single kind properties) rfl
  have hroot : Holds (ofTree (.mk kind properties children)) 0 rootId
      (.mk kind properties children) :=
    ⟨Nat.le_refl _, _, hself, rfl, rfl,
      hchildren.congr (Nat.zero_le _) (fun _ _ _ hslot => hslot) children⟩
  refine hroot.subtree_eq _ ?_
  rw [ofTree, Node.size]
  exact Nat.le_of_eq (hlength.trans (Nat.add_comm _ _)).symm

end Arena

end Theming.Sheet
