import Theming.Proofs.Sheet.Shape
import Theming.Sheet.Arena

set_option autoImplicit false

/-! # Links between nodes

The links of an arena are in order if children and parents agree and every live node is reached from
the root (`Arena.Linked`). Then there are no cycles and no node is reached twice, so all that can be
wrong with the structure are the kinds of its nodes (`Linked.defect?_eq`).

Adding a node keeps the links in order. So the arena of a tree is as sound as the tree
(`defect?_ofTree`). -/

namespace Theming.Sheet

namespace Arena

/-! ## Paths -/

variable {a : Arena}

/-- Following the parents of the second node leads to the first one. -/
inductive Below (a : Arena) (top : Nat) : Nat → Prop
  | self : Below a top top
  | child {id child : Nat} (h : Below a top id) (hparent : a.parent? child = some id) :
    Below a top child

theorem Below.cases {top id : Nat} (h : a.Below top id) :
    id = top ∨ ∃ parent, a.parent? id = some parent ∧ a.Below top parent := by
  cases h with
  | self => exact Or.inl rfl
  | child h hparent => exact Or.inr ⟨_, hparent, h⟩

theorem Below.trans {top id low : Nat} (h : a.Below top id) (h' : a.Below id low) :
    a.Below top low := by
  induction h' with
  | self => exact h
  | child _ hparent ih => exact ih.child hparent

/-- A path down starts with a child. -/
theorem Below.first {top id : Nat} (h : a.Below top id) :
    id = top ∨ ∃ child, a.parent? child = some top ∧ a.Below child id := by
  induction h with
  | self => exact Or.inl rfl
  | child _ hparent ih =>
    rcases ih with rfl | ⟨first, hfirst, hbelow⟩
    · exact Or.inr ⟨_, hparent, .self⟩
    · exact Or.inr ⟨first, hfirst, hbelow.child hparent⟩

/-- Of two nodes above the same one, one is above the other. -/
theorem Below.linear {s t id : Nat} (hs : a.Below s id) (ht : a.Below t id) :
    a.Below s t ∨ a.Below t s := by
  induction hs with
  | self => exact Or.inr ht
  | child hs hparent ih =>
    rcases ht.cases with rfl | ⟨parent, hsame, ht⟩
    · exact Or.inl (hs.child hparent)
    · obtain rfl := Option.some.inj (hparent.symm.trans hsame)
      exact ih ht

/-! ## Links in order -/

/-- Children and parents agree, and every live node is below the root, which has no parent. -/
structure Linked (a : Arena) : Prop where
  root_live : a.contains rootId = true
  root_top : a.parent? rootId = none
  links : ∀ {id child : Nat}, child ∈ a.childrenOf id ↔ a.parent? child = some id
  nodup : ∀ id, (a.childrenOf id).Nodup
  grounded : ∀ {id : Nat}, a.contains id = true → a.Below rootId id

theorem contains_of_parent? {id parent : Nat} (h : a.parent? id = some parent) :
    a.contains id = true := by
  unfold parent? at h
  unfold contains
  cases hslot : a.get? id with
  | none => rw [hslot] at h; cases h
  | some slot => rfl

theorem contains_of_mem_childrenOf {id child : Nat} (h : child ∈ a.childrenOf id) :
    a.contains id = true := by
  unfold childrenOf at h
  unfold contains
  cases hslot : a.get? id with
  | none => rw [hslot] at h; cases h
  | some slot => rfl

theorem lt_length_of_contains {id : Nat} (h : a.contains id = true) : id < a.slots.length := by
  unfold contains get? at h
  rcases Nat.lt_or_ge id a.slots.length with hlt | hge
  · exact hlt
  · rw [List.getElem?_eq_none hge] at h
    cases h

theorem contains_of_kind? {id : Nat} {kind : Kind} (h : a.kind? id = some kind) :
    a.contains id = true := by
  unfold kind? at h
  unfold contains
  cases hslot : a.get? id with
  | none => rw [hslot] at h; cases h
  | some slot => rfl

section Slot

variable {id : Nat} {slot : Slot} (h : a.get? id = some slot)

include h

theorem contains_of_get? : a.contains id = true := by
  rw [contains, h]
  rfl

theorem kind?_of_get? : a.kind? id = some slot.kind := by
  rw [kind?, h]
  rfl

theorem childrenOf_of_get? : a.childrenOf id = slot.children := by
  rw [childrenOf, h]
  rfl

end Slot

/-- There are no cycles. -/
theorem Linked.acyclic (h : a.Linked) {top id : Nat} (hparent : a.parent? top = some id) :
    ¬ a.Below top id := by
  intro hcycle
  have hnone : ∀ x, a.Below rootId x → ¬ a.Below top x := by
    intro x hx
    induction hx with
    | self =>
      intro hbelow
      rcases hbelow.cases with rfl | ⟨parent, hroot, -⟩
      · rw [h.root_top] at hparent
        cases hparent
      · rw [h.root_top] at hroot
        cases hroot
    | child _ hup ih =>
      intro hbelow
      rcases hbelow.cases with rfl | ⟨parent, hsame, hbelow⟩
      · obtain rfl := Option.some.inj (hparent.symm.trans hup)
        exact ih hcycle
      · obtain rfl := Option.some.inj (hup.symm.trans hsame)
        exact ih hbelow
  have hlive := contains_of_mem_childrenOf (h.links.2 hparent)
  exact hnone id (h.grounded hlive) hcycle

/-- Nothing is below two children of a node. -/
theorem Linked.siblings (h : a.Linked) {s t id x : Nat} (hne : s ≠ t)
    (hs : a.parent? s = some id) (ht : a.parent? t = some id) (hx : a.Below s x) :
    ¬ a.Below t x := by
  intro hx'
  rcases hx.linear hx' with hst | hts
  · rcases hst.cases with rfl | ⟨parent, hsame, hbelow⟩
    · exact hne rfl
    · obtain rfl := Option.some.inj (ht.symm.trans hsame)
      exact h.acyclic hs hbelow
  · rcases hts.cases with rfl | ⟨parent, hsame, hbelow⟩
    · exact hne rfl
    · obtain rfl := Option.some.inj (hs.symm.trans hsame)
      exact h.acyclic ht hbelow

/-! ## Checking the links -/

theorem Linked.linkDefect?_eq (h : a.Linked) {id child : Nat} (hchild : child ∈ a.childrenOf id) :
    a.linkDefect? id child = if a.kind? child = some .root then some .nestedRoot else none := by
  have hparent := h.links.1 hchild
  have hlive := contains_of_parent? hparent
  rw [linkDefect?, if_neg (by simp [hparent, hlive])]

/-- The first link that is looked at and leads to a root is reported. -/
theorem Linked.findSome?_linkDefect? (h : a.Linked) (id : Nat) :
    (a.childrenOf id).findSome? (a.linkDefect? id) =
      if ∃ child ∈ a.childrenOf id, a.kind? child = some .root then some .nestedRoot else none := by
  split
  · next hroot =>
    obtain ⟨child, hchild, hkind⟩ := hroot
    have hdefect : a.linkDefect? id child = some .nestedRoot := by
      rw [h.linkDefect?_eq hchild, if_pos hkind]
    cases hfound : (a.childrenOf id).findSome? (a.linkDefect? id) with
    | none =>
      rw [List.findSome?_eq_none_iff.1 hfound child hchild] at hdefect
      cases hdefect
    | some defect =>
      obtain ⟨other, hother, heq⟩ := List.exists_of_findSome?_eq_some hfound
      rw [h.linkDefect?_eq hother] at heq
      split at heq
      · exact heq.symm
      · cases heq
  · next hnone =>
    apply List.findSome?_eq_none_iff.2
    intro child hchild
    rw [h.linkDefect?_eq hchild, if_neg (fun hkind => hnone ⟨child, hchild, hkind⟩)]

/-- The nodes that are left are those below the stack, each below one entry of it. -/
structure Pending (a : Arena) (unseen stack : List Nat) : Prop where
  nodup : unseen.Nodup
  mem_iff : ∀ {x : Nat}, x ∈ unseen ↔ ∃ s ∈ stack, a.Below s x
  apart : stack.Pairwise (fun s t => ∀ x, a.Below s x → ¬ a.Below t x)

/-- After a node, its children are on the stack. -/
theorem Linked.pending_children (h : a.Linked) {unseen stack : List Nat} {id : Nat}
    (hpending : a.Pending unseen (id :: stack)) :
    a.Pending (unseen.erase id) ((a.childrenOf id).reverse ++ stack) := by
  obtain ⟨hnodup, hmem, hapart⟩ := hpending
  obtain ⟨hfirst, hstack⟩ := List.pairwise_cons.1 hapart
  refine ⟨hnodup.erase id, ?_, ?_⟩
  · intro x
    rw [hnodup.mem_erase_iff, hmem]
    constructor
    · rintro ⟨hne, s, hs, hbelow⟩
      rcases List.mem_cons.1 hs with rfl | hs
      · rcases hbelow.first with rfl | ⟨child, hchild, hbelow⟩
        · exact absurd rfl hne
        · exact ⟨child, by simp [h.links.2 hchild], hbelow⟩
      · exact ⟨s, List.mem_append_right _ hs, hbelow⟩
    · rintro ⟨s, hs, hbelow⟩
      rcases List.mem_append.1 hs with hs | hs
      · have hparent := h.links.1 (List.mem_reverse.1 hs)
        refine ⟨?_, id, List.mem_cons_self, (Below.self.child hparent).trans hbelow⟩
        rintro rfl
        exact h.acyclic hparent hbelow
      · refine ⟨fun heq => ?_, s, List.mem_cons_of_mem id hs, hbelow⟩
        exact hfirst s hs x (heq ▸ .self) hbelow
  · refine List.pairwise_append.2 ⟨?_, hstack, ?_⟩
    · refine List.pairwise_reverse.2 (List.Pairwise.imp_of_mem ?_ (h.nodup id))
      intro s t hs ht hne x
      exact h.siblings hne.symm (h.links.1 ht) (h.links.1 hs)
    · intro s hs t ht x hbelow
      have hparent := h.links.1 (List.mem_reverse.1 hs)
      exact hfirst t ht x ((Below.self.child hparent).trans hbelow)

/-- Only a root among the nodes that are left, but not on the stack, is reported. -/
theorem Linked.checkLinks_eq (h : a.Linked) {unseen stack : List Nat}
    (hpending : a.Pending unseen stack) :
    a.checkLinks unseen stack =
      if ∃ x ∈ unseen, x ∉ stack ∧ a.kind? x = some .root then some .nestedRoot else none := by
  fun_induction checkLinks a unseen stack with
  | case1 unseen hempty =>
    rw [List.isEmpty_iff.1 hempty]
    rfl
  | case2 unseen hempty =>
    have hne : unseen ≠ [] := by simpa using hempty
    obtain ⟨x, rest, rfl⟩ := List.exists_cons_of_ne_nil hne
    obtain ⟨s, hs, -⟩ := hpending.mem_iff.1 List.mem_cons_self
    cases hs
  | case3 unseen id stack hid defect hfound =>
    rw [h.findSome?_linkDefect?] at hfound
    split at hfound
    · next hroot =>
      obtain ⟨child, hchild, hkind⟩ := hroot
      have hparent := h.links.1 hchild
      have hbelow : a.Below id child := Below.self.child hparent
      have hstack : child ∉ id :: stack := by
        intro hmem
        rcases List.mem_cons.1 hmem with rfl | hmem
        · exact h.acyclic hparent .self
        · exact (List.pairwise_cons.1 hpending.apart).1 child hmem child hbelow .self
      rw [if_pos ⟨child, hpending.mem_iff.2 ⟨id, List.mem_cons_self, hbelow⟩, hstack, hkind⟩]
      exact hfound.symm
    · cases hfound
  | case4 unseen id stack hid hfound ih =>
    rw [ih (h.pending_children hpending)]
    rw [h.findSome?_linkDefect?] at hfound
    have hchildren : ∀ child ∈ a.childrenOf id, a.kind? child ≠ some .root := by
      intro child hchild hkind
      rw [if_pos ⟨child, hchild, hkind⟩] at hfound
      cases hfound
    congr 1
    apply propext
    constructor
    · rintro ⟨x, hx, hstack, hkind⟩
      obtain ⟨hne, hx⟩ := hpending.nodup.mem_erase_iff.1 hx
      refine ⟨x, hx, fun hmem => ?_, hkind⟩
      rcases List.mem_cons.1 hmem with rfl | hmem
      · exact hne rfl
      · exact hstack (List.mem_append_right _ hmem)
    · rintro ⟨x, hx, hstack, hkind⟩
      obtain ⟨hne, hrest⟩ := not_or.1 (fun hor => hstack (List.mem_cons.2 hor))
      refine ⟨x, hpending.nodup.mem_erase_iff.2 ⟨hne, hx⟩, fun hmem => ?_, hkind⟩
      rcases List.mem_append.1 hmem with hmem | hmem
      · exact hchildren x (List.mem_reverse.1 hmem) hkind
      · exact hrest hmem
  | case5 unseen id stack hid =>
    exact absurd (hpending.mem_iff.2 ⟨id, List.mem_cons_self, .self⟩) hid

/-- All that can be wrong with links in order are the kinds of the nodes. -/
theorem Linked.defect?_eq (h : a.Linked) :
    a.defect? =
      if a.kind? rootId ≠ some .root then some .badRoot
      else if ∃ id ∈ List.range a.slots.length, id ≠ rootId ∧ a.kind? id = some .root then
        some .nestedRoot
      else none := by
  have hmem : ∀ {x : Nat}, x ∈ (List.range a.slots.length).filter (fun id => a.contains id) ↔
      a.contains x = true := by
    intro x
    rw [List.mem_filter, List.mem_range]
    exact and_iff_right_of_imp lt_length_of_contains
  have hpending : a.Pending ((List.range a.slots.length).filter (fun id => a.contains id))
      [rootId] := by
    refine ⟨List.nodup_range.filter _, ?_, List.pairwise_singleton _ _⟩
    intro x
    rw [hmem]
    constructor
    · exact fun hlive => ⟨rootId, List.mem_cons_self, h.grounded hlive⟩
    · rintro ⟨s, hs, hbelow⟩
      obtain rfl := List.mem_singleton.1 hs
      rcases hbelow.cases with rfl | ⟨parent, hparent, -⟩
      · exact h.root_live
      · exact contains_of_parent? hparent
  have hroots : (∃ x ∈ (List.range a.slots.length).filter (fun id => a.contains id),
      x ∉ [rootId] ∧ a.kind? x = some .root) ↔
        ∃ id ∈ List.range a.slots.length, id ≠ rootId ∧ a.kind? id = some .root := by
    constructor
    · rintro ⟨x, hx, hne, hkind⟩
      exact ⟨x, (List.mem_filter.1 hx).1, fun heq => hne (List.mem_singleton.2 heq), hkind⟩
    · rintro ⟨x, hx, hne, hkind⟩
      exact ⟨x, hmem.2 (contains_of_kind? hkind), fun hin => hne (List.mem_singleton.1 hin), hkind⟩
  rw [defect?, h.root_top, h.checkLinks_eq hpending]
  simp only [hroots, Option.isSome_none, Bool.false_eq_true, or_false]

/-! ## Adding nodes -/

theorem get?_modify (a : Arena) (id : Nat) (f : Slot → Slot) (x : Nat) :
    (a.modify id f).get? x = if x = id then (a.get? x).map f else a.get? x := by
  unfold get? modify
  rw [List.getElem?_modify]
  by_cases hx : id = x
  · rw [if_pos hx.symm]
    cases a.slots[x]? with
    | none => rfl
    | some slot => simp [hx]
  · rw [if_neg (Ne.symm hx)]
    simp [hx]

/-- Where a node is added: below the root if the parent is stale. -/
def host (a : Arena) (parent : Nat) : Nat := if a.contains parent then parent else rootId

theorem Linked.host_live (h : a.Linked) (parent : Nat) : a.contains (a.host parent) = true := by
  unfold host
  split
  · assumption
  · exact h.root_live

theorem get?_length (a : Arena) : a.get? a.slots.length = none := by
  unfold get?
  rw [List.getElem?_eq_none (Nat.le_refl _)]
  rfl

section Insert

variable (parent : Nat) (kind : Kind) (properties : Table String)

/-- A node that is added changes the node that it is added to, and no other one. -/
theorem Linked.get?_insert (h : a.Linked) (x : Nat) :
    (a.insert parent kind properties).1.get? x =
      if x = a.slots.length then some ⟨kind, properties, some (a.host parent), []⟩
      else if x = a.host parent then
        (a.get? x).map (fun slot => { slot with children := slot.children ++ [a.slots.length] })
      else a.get? x := by
  have hhost : a.host parent < a.slots.length := lt_length_of_contains (h.host_live parent)
  let grown : Arena := ⟨a.slots ++ [some ⟨kind, properties, some (a.host parent), []⟩]⟩
  have hgrown : ∀ y, grown.get? y =
      if y = a.slots.length then some ⟨kind, properties, some (a.host parent), []⟩
        else a.get? y := by
    intro y
    unfold get? grown
    rw [List.getElem?_append]
    rcases Nat.lt_trichotomy y a.slots.length with hlt | rfl | hgt
    · rw [if_pos hlt, if_neg (Nat.ne_of_lt hlt)]
    · simp
    · rw [if_neg (by omega), if_neg (by omega), List.getElem?_eq_none (by simp; omega),
        List.getElem?_eq_none (by omega)]
  show (grown.modify (a.host parent) _).get? x = _
  rw [get?_modify, hgrown]
  by_cases hx : x = a.slots.length
  · rw [if_neg (by omega), if_pos hx, if_pos hx]
  · rw [if_neg hx, if_neg hx]

theorem Linked.kind?_insert (h : a.Linked) (x : Nat) :
    (a.insert parent kind properties).1.kind? x =
      if x = a.slots.length then some kind else a.kind? x := by
  unfold kind?
  rw [h.get?_insert]
  split
  · rfl
  · split
    · rw [Option.map_map]
      rfl
    · rfl

theorem Linked.parent?_insert (h : a.Linked) (x : Nat) :
    (a.insert parent kind properties).1.parent? x =
      if x = a.slots.length then some (a.host parent) else a.parent? x := by
  unfold parent?
  rw [h.get?_insert]
  split
  · rfl
  · split
    · cases a.get? x <;> rfl
    · rfl

theorem Linked.childrenOf_insert (h : a.Linked) (x : Nat) :
    (a.insert parent kind properties).1.childrenOf x =
      if x = a.host parent then a.childrenOf x ++ [a.slots.length] else a.childrenOf x := by
  have hlive := h.host_live parent
  unfold contains at hlive
  unfold childrenOf
  rw [h.get?_insert]
  by_cases hx : x = a.slots.length
  · rw [if_pos hx, hx, get?_length]
    split
    · next heq =>
      rw [← heq, get?_length] at hlive
      cases hlive
    · rfl
  · rw [if_neg hx]
    split
    · next heq =>
      subst heq
      obtain ⟨slot, hslot⟩ := Option.isSome_iff_exists.1 hlive
      rw [hslot]
      rfl
    · rfl

theorem Linked.contains_insert (h : a.Linked) (x : Nat) :
    (a.insert parent kind properties).1.contains x = true ↔
      x = a.slots.length ∨ a.contains x = true := by
  unfold contains
  rw [h.get?_insert]
  split
  · next hx => simp [hx]
  · next hx =>
    split
    · rw [Option.isSome_map, or_iff_right hx]
    · rw [or_iff_right hx]

/-- What was below a node stays below it. -/
theorem Linked.below_insert (h : a.Linked) {top id : Nat} (hbelow : a.Below top id) :
    (a.insert parent kind properties).1.Below top id := by
  induction hbelow with
  | self => exact .self
  | @child id child _ hparent ih =>
    have hne : child ≠ a.slots.length :=
      Nat.ne_of_lt (lt_length_of_contains (contains_of_parent? hparent))
    exact ih.child (by rw [h.parent?_insert, if_neg hne, hparent])

/-- **Adding a node keeps the links in order.** -/
theorem Linked.insert (h : a.Linked) : (a.insert parent kind properties).1.Linked := by
  have hroot : rootId ≠ a.slots.length := Nat.ne_of_lt (lt_length_of_contains h.root_live)
  have hnew : ∀ id, a.slots.length ∉ a.childrenOf id := by
    intro id hmem
    exact Nat.lt_irrefl _ (lt_length_of_contains (contains_of_parent? (h.links.1 hmem)))
  refine ⟨?_, ?_, ?_, ?_, ?_⟩
  · exact (h.contains_insert parent kind properties rootId).2 (Or.inr h.root_live)
  · rw [h.parent?_insert, if_neg hroot, h.root_top]
  · intro id child
    rw [h.childrenOf_insert, h.parent?_insert]
    by_cases hchild : child = a.slots.length
    · subst hchild
      rw [if_pos rfl]
      split
      · next hid => simp [hid]
      · next hid =>
        exact ⟨fun hmem => absurd hmem (hnew id), fun heq => absurd (Option.some.inj heq).symm hid⟩
    · rw [if_neg hchild]
      split
      · rw [List.mem_append, List.mem_singleton, or_iff_left hchild, h.links]
      · exact h.links
  · intro id
    rw [h.childrenOf_insert]
    split
    · refine List.nodup_append.2 ⟨h.nodup id, List.pairwise_singleton _ _, ?_⟩
      intro x hx y hy heq
      rw [heq, List.mem_singleton.1 hy] at hx
      exact hnew id hx
    · exact h.nodup id
  · intro id hlive
    rcases (h.contains_insert parent kind properties id).1 hlive with rfl | hold
    · have hhost := h.below_insert parent kind properties (h.grounded (h.host_live parent))
      exact hhost.child (by rw [h.parent?_insert, if_pos rfl])
    · exact h.below_insert parent kind properties (h.grounded hold)

end Insert

/-! ## Arenas of trees -/

/-- The links are in order, and only the root is of the kind of a root. -/
structure Rooted (a : Arena) : Prop where
  linked : a.Linked
  root : a.kind? rootId = some .root
  only : ∀ {id : Nat}, a.kind? id = some .root → id = rootId

theorem Rooted.defect?_eq (h : a.Rooted) : a.defect? = none := by
  rw [h.linked.defect?_eq, if_neg (by simp [h.root]), if_neg]
  rintro ⟨id, -, hne, hkind⟩
  exact hne (h.only hkind)

theorem Rooted.insert (h : a.Rooted) (parent : Nat) {kind : Kind} (hkind : kind ≠ .root)
    (properties : Table String) : (a.insert parent kind properties).1.Rooted := by
  have hroot : rootId ≠ a.slots.length := Nat.ne_of_lt (lt_length_of_contains h.linked.root_live)
  refine ⟨h.linked.insert parent kind properties, ?_, ?_⟩
  · rw [h.linked.kind?_insert, if_neg hroot, h.root]
  · intro id hid
    rw [h.linked.kind?_insert] at hid
    split at hid
    · exact absurd (Option.some.inj hid) hkind
    · exact h.only hid

theorem rooted_single (properties : Table String) : (single .root properties).Rooted := by
  have hget : ∀ id, (single .root properties).get? id =
      if id = rootId then some ⟨.root, properties, none, []⟩ else none := by
    intro id
    cases id with
    | zero => rfl
    | succ id => rfl
  have hparent : ∀ id, (single .root properties).parent? id = none := by
    intro id
    unfold parent?
    rw [hget]
    split <;> rfl
  have hchildren : ∀ id, (single .root properties).childrenOf id = [] := by
    intro id
    unfold childrenOf
    rw [hget]
    split <;> rfl
  have honly : ∀ {id}, (single .root properties).contains id = true → id = rootId := by
    intro id hlive
    unfold contains at hlive
    rw [hget] at hlive
    split at hlive
    · assumption
    · cases hlive
  refine ⟨⟨rfl, rfl, ?_, ?_, ?_⟩, rfl, fun hkind => honly (contains_of_kind? hkind)⟩
  · intro id child
    rw [hchildren, hparent]
    simp
  · intro id
    rw [hchildren]
    exact List.nodup_nil
  · intro id hlive
    rw [honly hlive]
    exact .self

mutual

theorem rooted_graft (parent : Nat) :
    ∀ (n : Node) {a : Arena}, a.Rooted → NoRoot [n] → (a.graft parent n).Rooted
  | .mk kind properties children, _ => fun h hn => by
    obtain ⟨hkind, hchildren⟩ := noRoot_mk_iff.1 hn
    exact rooted_graftAll _ children (h.insert parent hkind properties) hchildren
termination_by structural n => n

theorem rooted_graftAll (parent : Nat) :
    ∀ (nodes : List Node) {a : Arena}, a.Rooted → NoRoot nodes → (a.graftAll parent nodes).Rooted
  | [], _ => fun h _ => h
  | n :: rest, _ => fun h hn => by
    obtain ⟨hself, hrest⟩ := noRoot_cons_iff.1 hn
    exact rooted_graftAll parent rest (rooted_graft parent n h hself) hrest
termination_by structural nodes => nodes

end

/-- **The arena of a tree is as sound as the tree.** -/
theorem defect?_ofTree {tree : Node} (h : tree.defect? = none) : (ofTree tree).defect? = none := by
  obtain ⟨hkind, hbelow⟩ := defect?_eq_none_iff.1 h
  rw [ofTree, hkind]
  exact (rooted_graftAll rootId tree.children (rooted_single tree.properties) hbelow).defect?_eq

end Arena

end Theming.Sheet
