import Mathlib.Order.Monotone.Basic
import Theming.Proofs.Sheet.Pruning

set_option autoImplicit false

/-! # Positions in a tree

Equal nodes can stand in several places of a tree, so what a pass does to a node is said of the
position where it stands: the list of children to go to, level by level (`Node.at?`).

A pass that only drops nodes has one form (`Thins`): the children that pass a test are thinned in
turn, the others are gone with all below them. Its result remains from the tree (`Remains`): each
position of it comes from one of the tree with the same kind and texts, under the same parent and in
the same order (`Thins.remains`). And the positions that are left are those with the test passed all
the way down (`Thins.survives_iff`). -/

namespace Theming.Sheet

open Node

/-! ## Nodes at positions -/

/-- The node at a position: the child to go to, level by level. -/
def Node.at? : List Nat → Node → Option Node
  | [], n => some n
  | i :: rest, n => n.children[i]?.bind (Node.at? rest)

namespace Node

@[simp] theorem at?_nil (n : Node) : n.at? [] = some n := rfl

theorem at?_cons (i : Nat) (rest : List Nat) (n : Node) :
    n.at? (i :: rest) = n.children[i]?.bind (at? rest) := rfl

theorem at?_cons_eq_some {i : Nat} {rest : List Nat} {n m : Node} :
    n.at? (i :: rest) = some m ↔ ∃ c, n.children[i]? = some c ∧ c.at? rest = some m := by
  rw [at?_cons, Option.bind_eq_some_iff]

theorem at?_append (p q : List Nat) (n : Node) :
    n.at? (p ++ q) = (n.at? p).bind (at? q) := by
  induction p generalizing n with
  | nil => rfl
  | cons i rest ih =>
    rw [List.cons_append, at?_cons, at?_cons, Option.bind_assoc]
    exact congrArg _ (funext ih)

/-- A change that reaches a node by changing its children one by one keeps positions. -/
theorem at?_of_children_map {F : Node → Node} (hF : ∀ n, (F n).children = n.children.map F)
    (p : List Nat) (n : Node) : (F n).at? p = (n.at? p).map F := by
  induction p generalizing n with
  | nil => rfl
  | cons i rest ih =>
    rw [at?_cons, at?_cons, hF, List.getElem?_map]
    cases n.children[i]? with
    | none => rfl
    | some c => exact ih c

end Node

/-! ## Places in filtered lists -/

section Place

variable {α : Type} (keep : α → Bool)

/-- Where the entry at a place of the filtered list stood. Behind the last one it counts on, so that
    no place is used twice. -/
def place : List α → Nat → Nat
  | [], i => i
  | a :: rest, i =>
    if keep a then
      match i with
      | 0 => 0
      | i + 1 => place rest i + 1
    else place rest i + 1

theorem getElem?_filter_place (l : List α) (i : Nat) :
    (l.filter keep)[i]? = l[place keep l i]? := by
  induction l generalizing i with
  | nil => rfl
  | cons a rest ih =>
    by_cases ha : keep a = true
    · rw [List.filter_cons_of_pos ha]
      cases i with
      | zero => simp [place, ha]
      | succ i => simp [place, ha, ih]
    · rw [List.filter_cons_of_neg ha, ih]
      simp [place, ha]

theorem strictMono_place (l : List α) : StrictMono (place keep l) := by
  induction l with
  | nil => exact strictMono_id
  | cons a rest ih =>
    intro i j hij
    by_cases ha : keep a = true
    · cases j with
      | zero => exact absurd hij (Nat.not_lt_zero i)
      | succ j =>
        cases i with
        | zero => simp [place, ha]
        | succ i => simpa [place, ha] using ih (Nat.lt_of_succ_lt_succ hij)
    · simpa [place, ha] using ih hij

/-- Whatever is kept stands at a place of the filtered list. -/
theorem exists_place {l : List α} {j : Nat} {a : α} (h : l[j]? = some a) (ha : keep a = true) :
    ∃ i, place keep l i = j := by
  induction l generalizing j with
  | nil => cases h
  | cons b rest ih =>
    cases j with
    | zero =>
      rw [List.getElem?_cons_zero, Option.some_inj] at h
      exact ⟨0, by simp [place, h, ha]⟩
    | succ j =>
      rw [List.getElem?_cons_succ] at h
      obtain ⟨i, hi⟩ := ih h
      by_cases hb : keep b = true
      · exact ⟨i + 1, by simp [place, hb, hi]⟩
      · exact ⟨i, by simp [place, hb, hi]⟩

end Place

/-! ## What remains of a tree -/

/-- A map of positions shows where each node of `out` stood in `tree`: the top is the top, a node has
    the kind and the texts that it had there, and the children of a node are children of the node it
    was, in their order. -/
structure Remains (origin : List Nat → List Nat) (out tree : Node) : Prop where
  top : origin [] = []
  same : ∀ q m, out.at? q = some m →
    ∃ n, tree.at? (origin q) = some n ∧ m.kind = n.kind ∧ m.properties = n.properties
  children : ∀ q, ∃ order : Nat → Nat, StrictMono order ∧
    ∀ i, origin (q ++ [i]) = origin q ++ [order i]

/-- The node at a position is still there: one of the nodes that remain stood at it. -/
def Survives (origin : List Nat → List Nat) (out : Node) (p : List Nat) : Prop :=
  ∃ q, (out.at? q).isSome ∧ origin q = p

/-! ## Thinning -/

/-- A change of nodes that keeps the children that pass a test, each changed in turn. -/
structure Thins (stays : Node → Bool) (F : Node → Node) : Prop where
  head : KeepsHead F
  children : ∀ n, (F n).children = (n.children.filter stays).map F

/-- Where the node at a position stood before the tree was thinned. -/
def origin (stays : Node → Bool) : List Nat → Node → List Nat
  | [], _ => []
  | i :: rest, n =>
    let j := place stays n.children i
    j :: ((n.children[j]?).map (origin stays rest)).getD rest

/-- A position of the tree where each node on the way passes a test, but for the top. -/
def Lasts (stays : Node → Bool) : List Nat → Node → Prop
  | [], _ => True
  | i :: rest, n => ∃ c, n.children[i]? = some c ∧ stays c = true ∧ Lasts stays rest c

theorem lasts_append {stays : Node → Bool} {p q : List Nat} {n m : Node} (hm : n.at? p = some m) :
    Lasts stays (p ++ q) n ↔ Lasts stays p n ∧ Lasts stays q m := by
  induction p generalizing n with
  | nil =>
    rw [at?_nil, Option.some_inj] at hm
    subst hm
    simp only [List.nil_append, Lasts, true_and]
  | cons i rest ih =>
    obtain ⟨c, hc, hcm⟩ := at?_cons_eq_some.1 hm
    simp only [List.cons_append, Lasts, hc, Option.some_inj, exists_eq_left', ih hcm, and_assoc]

/-- The node that a lasting position leads to passes the test itself. -/
theorem Lasts.stays {stays : Node → Bool} {p : List Nat} {n m : Node} (h : Lasts stays p n)
    (hm : n.at? p = some m) (hp : p ≠ []) : stays m = true := by
  induction p generalizing n with
  | nil => exact absurd rfl hp
  | cons i rest ih =>
    obtain ⟨c, hc, hstays, hrest⟩ := h
    rw [at?_cons, hc] at hm
    cases rest with
    | nil => exact Option.some_inj.1 hm ▸ hstays
    | cons j rest => exact ih hrest hm (List.cons_ne_nil j rest)

namespace Thins

variable {stays : Node → Bool} {F : Node → Node}

theorem at?_eq (hF : Thins stays F) (q : List Nat) (n : Node) :
    (F n).at? q = (n.at? (origin stays q n)).map F := by
  induction q generalizing n with
  | nil => rfl
  | cons i rest ih =>
    rw [at?_cons, hF.children, List.getElem?_map, getElem?_filter_place]
    show _ = ((n.children[place stays n.children i]?).bind _).map F
    cases n.children[place stays n.children i]? with
    | none => rfl
    | some c => exact ih c

theorem origin_append (stays : Node → Bool) (q : List Nat) (n : Node) :
    ∃ order : Nat → Nat, StrictMono order ∧
      ∀ i, origin stays (q ++ [i]) n = origin stays q n ++ [order i] := by
  induction q generalizing n with
  | nil =>
    refine ⟨place stays n.children, strictMono_place stays n.children, fun i => ?_⟩
    simp only [List.nil_append, origin]
    cases n.children[place stays n.children i]? <;> rfl
  | cons j rest ih =>
    simp only [List.cons_append, origin, List.cons.injEq, true_and]
    cases n.children[place stays n.children j]? with
    | none => exact ⟨id, strictMono_id, fun i => rfl⟩
    | some c => exact ih c

/-- Thinning drops nodes and does nothing else. -/
theorem remains (hF : Thins stays F) (n : Node) : Remains (origin stays · n) (F n) n where
  top := rfl
  same q m hm := by
    rw [hF.at?_eq, Option.map_eq_some_iff] at hm
    obtain ⟨k, hk, rfl⟩ := hm
    exact ⟨k, hk, hF.head k⟩
  children q := origin_append stays q n

theorem lasts_origin (hF : Thins stays F) {q : List Nat} {n : Node} (h : ((F n).at? q).isSome) :
    Lasts stays (origin stays q n) n := by
  induction q generalizing n with
  | nil => trivial
  | cons i rest ih =>
    rw [at?_cons, hF.children, List.getElem?_map, getElem?_filter_place] at h
    have hfilter := getElem?_filter_place stays n.children i
    rw [origin]
    cases hc : n.children[place stays n.children i]? with
    | none =>
      rw [hc] at h
      cases h
    | some c =>
      rw [hc] at h hfilter
      exact ⟨c, hc, (List.mem_filter.1 (List.mem_of_getElem? hfilter)).2, ih h⟩

theorem exists_of_lasts (hF : Thins stays F) {p : List Nat} {n : Node} (h : Lasts stays p n) :
    Survives (origin stays · n) (F n) p := by
  induction p generalizing n with
  | nil => exact ⟨[], rfl, rfl⟩
  | cons j rest ih =>
    obtain ⟨c, hc, hstays, hrest⟩ := h
    obtain ⟨i, hi⟩ := exists_place stays hc hstays
    obtain ⟨q, hq, horigin⟩ := ih hrest
    refine ⟨i :: q, ?_, ?_⟩
    · rw [at?_cons, hF.children, List.getElem?_map, getElem?_filter_place, hi, hc]
      exact hq
    · simp only [origin, hi, hc]
      exact congrArg (j :: ·) horigin

/-- What survives are the positions with the test passed all the way. -/
theorem survives_iff (hF : Thins stays F) (p : List Nat) (n : Node) :
    Survives (origin stays · n) (F n) p ↔ Lasts stays p n := by
  constructor
  · rintro ⟨q, hq, rfl⟩
    exact hF.lasts_origin hq
  · exact hF.exists_of_lasts

end Thins

end Theming.Sheet
