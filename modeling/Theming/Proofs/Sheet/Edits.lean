import Theming.Proofs.Sheet.Walks

set_option autoImplicit false

/-! # Edits keep a tree

However an arena is edited, with live or stale numbers and whatever nodes and orders are given, its
links stay in order (`Linked.edit`). So what can be wrong with an edited arena is that its root is
no longer of that kind, or that another node is (`defect?_run`).

The edits that change links say which links they change, node by node; what a node is below then
follows from `Below.of_path`: a path is kept if the parents along it are. -/

namespace Theming.Sheet

namespace Arena

variable {a b : Arena}

/-! ## Edits -/

/-- An edit of an arena. -/
inductive Edit where
  | insert (parent : Nat) (kind : Kind) (properties : Table String)
  | remove (id : Nat)
  | reparent (id target : Nat)
  | reorder (id : Nat) (order : List Nat)
  | setProperty (id : Nat) (key value : String)
  | setKind (id : Nat) (kind : Kind)
  /-- The kind and all properties of a node are replaced. -/
  | replace (id : Nat) (kind : Kind) (properties : Table String)
deriving Repr, DecidableEq

/-- The arena after an edit. One that is refused changes nothing. -/
def edit (a : Arena) : Edit → Arena
  | .insert parent kind properties => (a.insert parent kind properties).1
  | .remove id => ((a.remove id).map Prod.snd).getD a
  | .reparent id target => (a.reparent id target).getD a
  | .reorder id order => (a.reorder id order).getD a
  | .setProperty id key value => a.setProperty id key value
  | .setKind id kind => a.setKind id kind
  | .replace id kind properties =>
    a.modify id (fun slot => { slot with kind := kind, properties := properties })

/-- The arena after edits, one after the other. -/
def run (a : Arena) (edits : List Edit) : Arena := edits.foldl edit a

/-! ## Paths through two arenas -/

/-- A path down is there in another arena, too, if the parents along it are the same. -/
theorem Below.of_path {top id : Nat} (h : a.Below top id)
    (hsame : ∀ x parent, a.Below top parent → a.Below x id → a.parent? x = some parent →
      b.parent? x = some parent) : b.Below top id := by
  induction h with
  | self => exact .self
  | child habove hparent ih =>
    refine (ih fun x parent htop hx hup => ?_).child (hsame _ _ habove .self hparent)
    exact hsame x parent htop (hx.child hparent) hup

theorem Linked.of_same (h : a.Linked) (hlive : ∀ x, b.contains x = a.contains x)
    (hparent : ∀ x, b.parent? x = a.parent? x) (hchildren : ∀ x, b.childrenOf x = a.childrenOf x) :
    b.Linked where
  root_live := by rw [hlive, h.root_live]
  root_top := by rw [hparent, h.root_top]
  links := by
    intro id child
    rw [hchildren, hparent]
    exact h.links
  nodup := by
    intro id
    rw [hchildren]
    exact h.nodup id
  grounded := by
    intro id hid
    rw [hlive] at hid
    exact (h.grounded hid).of_path (fun x parent _ _ hup => by rw [hparent, hup])

/-! ## Changes of a node -/

theorem contains_modify (a : Arena) (id : Nat) (f : Slot → Slot) (x : Nat) :
    (a.modify id f).contains x = a.contains x := by
  unfold contains
  rw [get?_modify]
  split
  · rw [Option.isSome_map]
  · rfl

theorem parent?_modify {f : Slot → Slot} (hf : ∀ slot, (f slot).parent = slot.parent) (a : Arena)
    (id x : Nat) : (a.modify id f).parent? x = a.parent? x := by
  unfold parent?
  rw [get?_modify]
  split
  · cases a.get? x with
    | none => rfl
    | some slot => exact hf slot
  · rfl

/-- A node whose children are changed keeps its parent. -/
theorem parent?_modifyChildren (a : Arena) (id : Nat) (g : List Nat → List Nat) (x : Nat) :
    (a.modify id (fun slot => { slot with children := g slot.children })).parent? x = a.parent? x :=
  parent?_modify (f := fun slot => { slot with children := g slot.children }) (fun _ => rfl) a id x

theorem childrenOf_modifyChildren {id : Nat} (hlive : a.contains id = true)
    (g : List Nat → List Nat) (x : Nat) :
    (a.modify id (fun slot => { slot with children := g slot.children })).childrenOf x =
      if x = id then g (a.childrenOf x) else a.childrenOf x := by
  obtain ⟨slot, hslot⟩ := Option.isSome_iff_exists.1 hlive
  unfold childrenOf
  rw [get?_modify]
  split
  · next hx =>
    rw [hx, hslot]
    rfl
  · rfl

/-- A change of a node that leaves its links alone keeps the links in order. -/
theorem Linked.modify (h : a.Linked) (id : Nat) {f : Slot → Slot}
    (hparent : ∀ slot, (f slot).parent = slot.parent)
    (hchildren : ∀ slot, (f slot).children = slot.children) : (a.modify id f).Linked := by
  refine h.of_same (a.contains_modify id f) (parent?_modify hparent a id) (fun x => ?_)
  unfold childrenOf
  rw [get?_modify]
  split
  · cases a.get? x with
    | none => rfl
    | some slot => exact hchildren slot
  · rfl

/-! ## Reordering -/

/-- An order of the same length with the same members is a permutation, since no child is listed
    twice. -/
theorem Linked.perm_of_same (h : a.Linked) {id : Nat} {order : List Nat}
    (hlength : (a.childrenOf id).length = order.length) (hsub : ∀ x ∈ a.childrenOf id, x ∈ order) :
    (a.childrenOf id).Perm order :=
  ((h.nodup id).subperm hsub).perm_of_length_le (Nat.le_of_eq hlength.symm)

theorem reorder_eq_some {id : Nat} {order : List Nat} (h : a.reorder id order = some b) :
    a.contains id = true ∧ (a.childrenOf id).length = order.length ∧
      (∀ x ∈ a.childrenOf id, x ∈ order) ∧
      a.modify id (fun slot => { slot with children := order }) = b := by
  unfold Arena.reorder at h
  cases hslot : a.get? id with
  | none =>
    rw [hslot] at h
    cases h
  | some slot =>
    have hchildren := childrenOf_of_get? hslot
    rw [hslot] at h
    dsimp only at h
    split at h
    · next hsame =>
      obtain ⟨hlength, -, hall⟩ := hsame
      rw [hchildren]
      exact ⟨contains_of_get? hslot, hlength, by simpa using hall, Option.some.inj h⟩
    · cases h

theorem Linked.reorder (h : a.Linked) {id : Nat} {order : List Nat}
    (hresult : a.reorder id order = some b) : b.Linked := by
  obtain ⟨hid, hlength, hsub, rfl⟩ := reorder_eq_some hresult
  have hperm := h.perm_of_same hlength hsub
  have hparent := a.parent?_modifyChildren id (fun _ => order)
  have hchildren := childrenOf_modifyChildren hid (fun _ => order)
  refine ⟨?_, ?_, ?_, ?_, ?_⟩
  · rw [contains_modify, h.root_live]
  · rw [hparent, h.root_top]
  · intro x child
    rw [hchildren, hparent, ← h.links]
    split
    · next hx => rw [hx, hperm.mem_iff]
    · rfl
  · intro x
    rw [hchildren]
    split
    · exact hperm.nodup_iff.1 (h.nodup id)
    · exact h.nodup x
  · intro x hx
    rw [contains_modify] at hx
    exact (h.grounded hx).of_path (fun y parent _ _ hup => by rw [hparent, hup])

/-! ## Taking a node out of its place -/

theorem contains_detach (a : Arena) (id x : Nat) : (a.detach id).contains x = a.contains x := by
  unfold detach
  split
  · rfl
  · rw [contains_modify]

theorem parent?_detach (a : Arena) (id x : Nat) : (a.detach id).parent? x = a.parent? x := by
  unfold detach
  split
  · rfl
  · next parent _ => exact a.parent?_modifyChildren parent _ x

/-- A node without the detached one among its children is not changed. -/
theorem Linked.map_filter_of_ne (h : a.Linked) {id x : Nat} (hne : a.parent? id ≠ some x) :
    (a.get? x).map (fun slot => { slot with children := slot.children.filter (· != id) }) =
      a.get? x := by
  cases hslot : a.get? x with
  | none => rfl
  | some slot =>
    have hkeep : slot.children.filter (· != id) = slot.children := by
      apply List.filter_eq_self.2
      intro child hchild
      have hmem : child ∈ a.childrenOf x := childrenOf_of_get? hslot ▸ hchild
      have hchildid : child ≠ id := fun heq => hne (heq ▸ h.links.1 hmem)
      simpa using hchildid
    rw [Option.map_some, hkeep]

/-- The node is taken out of the one list of children that it is in. -/
theorem Linked.get?_detach (h : a.Linked) (id x : Nat) :
    (a.detach id).get? x =
      (a.get? x).map (fun slot => { slot with children := slot.children.filter (· != id) }) := by
  unfold detach
  split
  · next hnone => rw [h.map_filter_of_ne (by simp [hnone])]
  · next parent hparent =>
    rw [get?_modify]
    split
    · rfl
    · next hx =>
      rw [h.map_filter_of_ne (fun heq => hx (Option.some.inj (hparent.symm.trans heq)).symm)]

theorem Linked.get?_detach_of_ne (h : a.Linked) {id x : Nat} (hne : a.parent? id ≠ some x) :
    (a.detach id).get? x = a.get? x := by
  rw [h.get?_detach, h.map_filter_of_ne hne]

theorem Linked.childrenOf_detach (h : a.Linked) (id x : Nat) :
    (a.detach id).childrenOf x = (a.childrenOf x).filter (· != id) := by
  rw [childrenOf, h.get?_detach, childrenOf]
  cases a.get? x <;> rfl

/-! ## Removing -/

theorem mem_childrenOf_filter {id x child : Nat} :
    child ∈ (a.childrenOf x).filter (· != id) ↔ child ∈ a.childrenOf x ∧ child ≠ id := by
  simp

/-- An arena without some of its nodes. Links to them are not touched. -/
def cleared (a : Arena) (ids : List Nat) : Arena :=
  ⟨a.slots.mapIdx (fun i slot => if ids.contains i then none else slot)⟩

theorem get?_cleared (a : Arena) (ids : List Nat) (x : Nat) :
    (a.cleared ids).get? x = if x ∈ ids then none else a.get? x := by
  rw [get?, cleared, List.getElem?_mapIdx]
  simp only [List.contains_iff_mem]
  split
  · cases a.slots[x]? <;> rfl
  · rw [Option.map_id']
    rfl

theorem remove_eq_some_iff {id : Nat} {slot : Slot} :
    a.remove id = some (slot, b) ↔
      id ≠ rootId ∧ a.get? id = some slot ∧ (a.detach id).cleared (a.walk id) = b := by
  unfold Arena.remove
  split
  · next hroot =>
    constructor
    · intro heq
      cases heq
    · rintro ⟨hne, -⟩
      exact absurd hroot hne
  · next hne =>
    rw [Option.map_eq_some_iff]
    constructor
    · rintro ⟨own, hown, hresult⟩
      obtain ⟨rfl, hb⟩ := Prod.mk.inj hresult
      exact ⟨hne, hown, hb⟩
    · rintro ⟨-, hslot, hb⟩
      exact ⟨slot, hslot, Prod.ext rfl hb⟩

/-- What is below a removed node is gone, and nothing else. -/
theorem Linked.get?_remove (h : a.Linked) {id : Nat} {slot : Slot}
    (hresult : a.remove id = some (slot, b)) (x : Nat) :
    (a.Below id x → b.get? x = none) ∧ (¬ a.Below id x → b.get? x = (a.detach id).get? x) := by
  obtain ⟨-, hslot, rfl⟩ := remove_eq_some_iff.1 hresult
  have hlive := contains_of_get? hslot
  rw [get?_cleared, ← h.mem_walk_iff hlive]
  exact ⟨fun hx => if_pos hx, fun hx => if_neg hx⟩

theorem Linked.remove (h : a.Linked) {id : Nat} {slot : Slot}
    (hresult : a.remove id = some (slot, b)) : b.Linked := by
  have hne := (remove_eq_some_iff.1 hresult).1
  have hget := h.get?_remove hresult
  have hroot : ¬ a.Below id rootId := by
    intro hbelow
    rcases hbelow.cases with heq | ⟨parent, hparent, -⟩
    · exact hne heq.symm
    · rw [h.root_top] at hparent
      cases hparent
  have hlive : ∀ x, b.contains x = true ↔ a.contains x = true ∧ ¬ a.Below id x := by
    intro x
    by_cases hx : a.Below id x
    · rw [contains, (hget x).1 hx]
      simp [hx]
    · rw [contains, (hget x).2 hx, ← contains, contains_detach]
      simp [hx]
  have hparent : ∀ x, ¬ a.Below id x → b.parent? x = a.parent? x := by
    intro x hx
    rw [parent?, (hget x).2 hx, ← parent?, parent?_detach]
  have hparent_of : ∀ {x parent}, b.parent? x = some parent → ¬ a.Below id x := by
    intro x parent hup hx
    rw [parent?, (hget x).1 hx] at hup
    cases hup
  have hchildren : ∀ x, ¬ a.Below id x →
      b.childrenOf x = (a.childrenOf x).filter (· != id) := by
    intro x hx
    rw [childrenOf, (hget x).2 hx, ← childrenOf, h.childrenOf_detach]
  have hnone : ∀ x, a.Below id x → b.childrenOf x = [] := by
    intro x hx
    rw [childrenOf, (hget x).1 hx]
    rfl
  refine ⟨(hlive rootId).2 ⟨h.root_live, hroot⟩, by rw [hparent rootId hroot, h.root_top],
    ?_, ?_, ?_⟩
  · intro x child
    constructor
    · intro hmem
      by_cases hx : a.Below id x
      · rw [hnone x hx] at hmem
        cases hmem
      · rw [hchildren x hx, mem_childrenOf_filter] at hmem
        have hup := h.links.1 hmem.1
        rw [hparent child, hup]
        intro hbelow
        rcases hbelow.cases with heq | ⟨parent, hother, hbelow⟩
        · exact hmem.2 heq
        · exact hx (Option.some.inj (hup.symm.trans hother) ▸ hbelow)
    · intro hup
      have hchild := hparent_of hup
      rw [hparent child hchild] at hup
      have hx : ¬ a.Below id x := fun hbelow => hchild (hbelow.child hup)
      rw [hchildren x hx, mem_childrenOf_filter]
      exact ⟨h.links.2 hup, fun heq => hchild (heq ▸ .self)⟩
  · intro x
    by_cases hx : a.Below id x
    · rw [hnone x hx]
      exact List.nodup_nil
    · rw [hchildren x hx]
      exact (h.nodup x).filter _
  · intro x hx
    obtain ⟨hold, hx⟩ := (hlive x).1 hx
    -- Nothing above a node that stays is below the removed one.
    refine (h.grounded hold).of_path (fun y parent _ hy hup => ?_)
    rw [hparent y (fun hbelow => hx (hbelow.trans hy)), hup]

/-! ## Moving -/

theorem reparent_eq_some_iff {id target : Nat} :
    a.reparent id target = some b ↔
      (id ≠ rootId ∧ a.contains id = true ∧ a.contains target = true ∧ id ≠ target ∧
        id ∉ a.ancestors target) ∧
      ((a.detach id).modify id (fun slot => { slot with parent := some target })).modify target
        (fun slot => { slot with children := slot.children ++ [id] }) = b := by
  unfold Arena.reparent
  split
  · next hrefused =>
    simp only [Bool.not_eq_true', List.contains_iff_mem] at hrefused
    constructor
    · intro heq
      cases heq
    · rintro ⟨⟨hroot, hid, htarget, hne, hanc⟩, -⟩
      simp [hroot, hid, htarget, hne, hanc] at hrefused
  · next hdone =>
    simp only [Bool.not_eq_true', List.contains_iff_mem, not_or, Bool.not_eq_false] at hdone
    rw [Option.some.injEq]
    exact (and_iff_right hdone).symm

/-- What a move does: the node gets a new parent and stands behind the children of that one. -/
theorem Linked.get?_reparent (h : a.Linked) {id target : Nat}
    (hresult : a.reparent id target = some b) (x : Nat) :
    b.get? x = (a.get? x).map (fun slot =>
      { slot with
        parent := if x = id then some target else slot.parent
        children := if x = target then slot.children.filter (· != id) ++ [id]
          else slot.children.filter (· != id) }) := by
  obtain ⟨-, rfl⟩ := reparent_eq_some_iff.1 hresult
  rw [get?_modify, get?_modify, h.get?_detach]
  cases a.get? x with
  | none => split <;> split <;> rfl
  | some slot => split <;> split <;> rfl

/-- The links after a move, one by one. -/
theorem Linked.links_reparent (h : a.Linked) {id target : Nat}
    (hresult : a.reparent id target = some b) (x : Nat) :
    b.contains x = a.contains x ∧ (b.parent? x = if x = id then some target else a.parent? x) ∧
      b.childrenOf x =
        if x = target then (a.childrenOf x).filter (· != id) ++ [id]
        else (a.childrenOf x).filter (· != id) := by
  obtain ⟨⟨-, hid, htarget, -, -⟩, -⟩ := reparent_eq_some_iff.1 hresult
  have hget := h.get?_reparent hresult x
  cases hslot : a.get? x with
  | none =>
    rw [hslot] at hget
    have hstale : a.contains x = false := by rw [contains, hslot]; rfl
    have hx : x ≠ id := fun heq => by rw [heq, hid] at hstale; cases hstale
    have hx' : x ≠ target := fun heq => by rw [heq, htarget] at hstale; cases hstale
    simp [contains, parent?, childrenOf, hget, hslot, hx, hx']
  | some slot =>
    rw [hslot] at hget
    simp [contains, parent?, childrenOf, hget, hslot]

theorem Linked.reparent (h : a.Linked) {id target : Nat}
    (hresult : a.reparent id target = some b) : b.Linked := by
  obtain ⟨⟨hroot, hid, htarget, hne, hanc⟩, -⟩ := reparent_eq_some_iff.1 hresult
  have hbelow : ¬ a.Below id target := fun hb => hanc (h.mem_ancestors_iff.2 ⟨hne, hb⟩)
  have hlinks := h.links_reparent hresult
  refine ⟨?_, ?_, ?_, ?_, ?_⟩
  · rw [(hlinks rootId).1, h.root_live]
  · rw [(hlinks rootId).2.1, if_neg hroot.symm, h.root_top]
  · intro x child
    obtain ⟨-, -, hchildren⟩ := hlinks x
    obtain ⟨-, hparent, -⟩ := hlinks child
    rw [hchildren, hparent]
    by_cases hchild : child = id
    · subst hchild
      rw [if_pos rfl, Option.some.injEq]
      split
      · next hx => simp [hx]
      · next hx => simp [Ne.symm hx]
    · rw [if_neg hchild, ← h.links]
      split <;> simp [hchild]
  · intro x
    rw [(hlinks x).2.2]
    have hrest := (h.nodup x).filter (· != id)
    split
    · refine List.nodup_append.2 ⟨hrest, List.pairwise_singleton _ _, ?_⟩
      intro y hy z hz heq
      rw [heq, List.mem_singleton.1 hz, mem_childrenOf_filter] at hy
      exact hy.2 rfl
    · exact hrest
  · -- A path from the root is kept up to the moved node, and so is one from there.
    have houtside : ∀ x, a.contains x = true → ¬ a.Below id x → b.Below rootId x := by
      intro x hx hnot
      refine (h.grounded hx).of_path (fun y parent _ hy hup => ?_)
      have hne : y ≠ id := fun heq => hnot (heq ▸ hy)
      rw [(hlinks y).2.1, if_neg hne, hup]
    have hmoved : b.Below rootId id :=
      (houtside target htarget hbelow).child (by rw [(hlinks id).2.1, if_pos rfl])
    intro x hx
    rw [(hlinks x).1] at hx
    by_cases hin : a.Below id x
    · refine hmoved.trans (hin.of_path (fun y parent habove _ hup => ?_))
      have hne : y ≠ id := fun heq => h.acyclic (heq ▸ hup) habove
      rw [(hlinks y).2.1, if_neg hne, hup]
    · exact houtside x hx hin

/-! ## Runs -/

/-- **An edit keeps the links in order.** -/
theorem Linked.edit (h : a.Linked) (e : Edit) : (a.edit e).Linked := by
  cases e with
  | insert parent kind properties => exact h.insert parent kind properties
  | remove id =>
    show (((a.remove id).map Prod.snd).getD a).Linked
    cases hresult : a.remove id with
    | none => exact h
    | some result => exact h.remove hresult
  | reparent id target =>
    show ((a.reparent id target).getD a).Linked
    cases hresult : a.reparent id target with
    | none => exact h
    | some b => exact h.reparent hresult
  | reorder id order =>
    show ((a.reorder id order).getD a).Linked
    cases hresult : a.reorder id order with
    | none => exact h
    | some b => exact h.reorder hresult
  | setProperty id key value => exact h.modify id (fun _ => rfl) (fun _ => rfl)
  | setKind id kind => exact h.modify id (fun _ => rfl) (fun _ => rfl)
  | replace id kind properties => exact h.modify id (fun _ => rfl) (fun _ => rfl)

theorem Linked.run (h : a.Linked) (edits : List Edit) : (a.run edits).Linked := by
  induction edits generalizing a with
  | nil => exact h
  | cons e rest ih => exact ih (h.edit e)

theorem linked_empty : empty.Linked := (rooted_single []).linked

open Classical in
/-- **All that can be wrong with an edited arena are the kinds of its nodes**: its root is no longer
    of that kind, or another live node is. -/
theorem defect?_run (edits : List Edit) :
    (empty.run edits).defect? =
      if (empty.run edits).kind? rootId ≠ some .root then some .badRoot
      else if ∃ id, id ≠ rootId ∧ (empty.run edits).kind? id = some .root then some .nestedRoot
      else none := by
  rw [(linked_empty.run edits).defect?_eq]
  generalize empty.run edits = a
  have hroots : (∃ id ∈ List.range a.slots.length, id ≠ rootId ∧ a.kind? id = some .root) ↔
      ∃ id, id ≠ rootId ∧ a.kind? id = some .root := by
    constructor
    · rintro ⟨id, -, hne, hkind⟩
      exact ⟨id, hne, hkind⟩
    · rintro ⟨id, hne, hkind⟩
      exact ⟨id, List.mem_range.2 (lt_length_of_contains (contains_of_kind? hkind)), hne, hkind⟩
  simp only [hroots]

end Arena

end Theming.Sheet
