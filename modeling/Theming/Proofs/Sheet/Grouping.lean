import Mathlib.Algebra.GroupWithZero.Nat
import Theming.Sheet.Optimization

set_option autoImplicit false

/-! # Folding rules is grouping them

`Node.foldRules` takes every flat rule into the first rule before it that is alike, one rule at a
time. What comes out does not depend on that order of steps: it is the list of groups (`gather`),
each folded into its first member (`foldRules_eq`). The only thing needed is that a rule stays as
it was for the comparison when it absorbs another one (`Absorbs`), which both merging passes
satisfy. -/

namespace Theming.Sheet

/-! ## Groups -/

section Gather

variable {α β : Type}

/-- What a first element leaves to other groups. -/
def others (alike : α → α → Bool) (a : α) (rest : List α) : List α :=
  rest.filter (fun b => !alike a b)

theorem length_others_lt (alike : α → α → Bool) (a : α) (rest : List α) :
    (others alike a rest).length < (a :: rest).length :=
  Nat.lt_succ_of_le (List.length_filter_le _ rest)

/-- Splits a list into groups, each with its first member: an element that is in no group yet
    starts one and takes every later element alike to it. -/
def gather (alike : α → α → Bool) : List α → List (α × List α)
  | [] => []
  | a :: rest => (a, rest.filter (alike a)) :: gather alike (others alike a rest)
termination_by l => l.length
decreasing_by exact length_others_lt alike a rest

/-- The members of a group, in order. -/
def members (g : α × List α) : List α := g.1 :: g.2

theorem gather_nil (alike : α → α → Bool) : gather alike [] = [] := by
  rw [gather]

theorem gather_cons (alike : α → α → Bool) (a : α) (rest : List α) :
    gather alike (a :: rest) =
      (a, rest.filter (alike a)) :: gather alike (rest.filter (fun b => !alike a b)) := by
  rw [gather, others]

/-- A fact about lists that is passed on from what a first element leaves over holds of all. -/
theorem gather_induction (alike : α → α → Bool) {P : List α → Prop} (nil : P [])
    (cons : ∀ a rest, P (rest.filter (fun b => !alike a b)) → P (a :: rest)) :
    ∀ l, P l
  | [] => nil
  | a :: rest => cons a rest (gather_induction alike nil cons (others alike a rest))
termination_by l => l.length
decreasing_by exact length_others_lt alike a rest

theorem gather_map (alike : β → β → Bool) (f : α → β) (l : List α) :
    gather alike (l.map f) =
      (gather (fun a b => alike (f a) (f b)) l).map (fun g => (f g.1, g.2.map f)) := by
  induction l using gather_induction (fun a b => alike (f a) (f b)) with
  | nil => simp only [List.map_nil, gather_nil]
  | cons a rest ih =>
    have hfilter : ∀ q : β → Bool, (rest.map f).filter q = (rest.filter (fun b => q (f b))).map f :=
      fun q => List.filter_map
    rw [List.map_cons, gather_cons, gather_cons, List.map_cons, hfilter, hfilter, ih]

theorem gather_congr {alike alike' : α → α → Bool} {l : List α}
    (h : ∀ a ∈ l, ∀ b ∈ l, alike a b = alike' a b) : gather alike l = gather alike' l := by
  induction l using gather_induction alike with
  | nil => rw [gather_nil, gather_nil]
  | cons a rest ih =>
    have hfirst : ∀ b ∈ rest, alike a b = alike' a b := fun b hb =>
      h a List.mem_cons_self b (List.mem_cons_of_mem _ hb)
    have hothers : rest.filter (fun b => !alike a b) = rest.filter (fun b => !alike' a b) :=
      List.filter_congr (fun b hb => by rw [hfirst b hb])
    rw [gather_cons, gather_cons, List.filter_congr hfirst, ← hothers, ih]
    intro b hb c hc
    exact h b (List.mem_cons_of_mem _ (List.mem_filter.1 hb).1) c
      (List.mem_cons_of_mem _ (List.mem_filter.1 hc).1)

/-- The first member of a group is alike to the others. -/
theorem alike_of_mem_gather {alike : α → α → Bool} {l : List α} {g : α × List α}
    (hg : g ∈ gather alike l) : ∀ b ∈ g.2, alike g.1 b = true := by
  induction l using gather_induction alike with
  | nil => rw [gather_nil] at hg; cases hg
  | cons a rest ih =>
    rw [gather_cons] at hg
    rcases List.mem_cons.1 hg with rfl | hg
    · intro b hb
      exact (List.mem_filter.1 hb).2
    · exact ih hg

theorem mem_of_mem_gather {alike : α → α → Bool} {l : List α} {g : α × List α}
    (hg : g ∈ gather alike l) : ∀ b ∈ members g, b ∈ l := by
  induction l using gather_induction alike with
  | nil => rw [gather_nil] at hg; cases hg
  | cons a rest ih =>
    rw [gather_cons] at hg
    rcases List.mem_cons.1 hg with rfl | hg
    · intro b hb
      rcases List.mem_cons.1 hb with rfl | hb
      · exact List.mem_cons_self
      · exact List.mem_cons_of_mem _ (List.mem_filter.1 hb).1
    · intro b hb
      exact List.mem_cons_of_mem _ (List.mem_filter.1 (ih hg b hb)).1

/-- No first member of a group is alike to that of a later one. -/
theorem pairwise_gather (alike : α → α → Bool) (l : List α) :
    (gather alike l).Pairwise (fun g h => alike g.1 h.1 = false) := by
  induction l using gather_induction alike with
  | nil => rw [gather_nil]; exact List.Pairwise.nil
  | cons a rest ih =>
    rw [gather_cons]
    refine List.Pairwise.cons (fun h hh => ?_) ih
    have hleft := (List.mem_filter.1 (mem_of_mem_gather hh h.1 List.mem_cons_self)).2
    simpa using hleft

/-- Groups hold what the list holds. -/
theorem gather_perm (alike : α → α → Bool) (l : List α) :
    ((gather alike l).flatMap members).Perm l := by
  induction l using gather_induction alike with
  | nil => rw [gather_nil]; exact List.Perm.refl _
  | cons a rest ih =>
    rw [gather_cons, List.flatMap_cons]
    show (a :: (rest.filter (alike a) ++ _)).Perm (a :: rest)
    exact ((ih.append_left _).trans (List.filter_append_perm (alike a) rest)).cons a

end Gather

/-! ## Folding -/

namespace Node

/-- Whether one rule takes another one: both are flat, and they are alike. -/
def takes (alike : Node → Node → Bool) (first n : Node) : Bool :=
  first.isFlatRule && n.isFlatRule && alike first n

theorem takes_iff {alike : Node → Node → Bool} {a b : Node} :
    takes alike a b = true ↔
      a.isFlatRule = true ∧ b.isFlatRule = true ∧ alike a b = true := by
  simp only [takes, Bool.and_eq_true, and_assoc]

/-- Taking a rule changes nothing about which further rules are taken. -/
structure Absorbs (alike : Node → Node → Bool) (absorb : Node → Node → Node) : Prop where
  flat : ∀ a b, takes alike a b = true → (absorb a b).isFlatRule = true
  alike : ∀ a b c, takes alike a b = true → alike (absorb a b) c = alike a c

/-- One step of `foldRules`. -/
def foldStep (alike : Node → Node → Bool) (absorb : Node → Node → Node) (kept : List Node)
    (n : Node) : List Node :=
  if n.isFlatRule then
    (updateFirst (fun first => first.isFlatRule && alike first n) (fun first => absorb first n)
      kept).getD (kept ++ [n])
  else kept ++ [n]

theorem foldRules_eq_foldl (alike : Node → Node → Bool) (absorb : Node → Node → Node)
    (nodes : List Node) : foldRules alike absorb nodes = nodes.foldl (foldStep alike absorb) [] :=
  rfl

theorem foldStep_cons (alike : Node → Node → Bool) (absorb : Node → Node → Node) (a : Node)
    (kept : List Node) (n : Node) :
    foldStep alike absorb (a :: kept) n =
      if takes alike a n then absorb a n :: kept else a :: foldStep alike absorb kept n := by
  unfold foldStep takes
  cases hn : n.isFlatRule with
  | false => simp
  | true =>
    rw [updateFirst]
    cases ha : (a.isFlatRule && alike a n) with
    | true =>
      obtain ⟨hflat, halike⟩ := Bool.and_eq_true_iff.1 ha
      simp [hflat, halike]
    | false =>
      have hnot : (a.isFlatRule && true && alike a n) = false := by rw [Bool.and_true]; exact ha
      simp only [hnot, Bool.false_eq_true, ↓reduceIte]
      cases updateFirst (fun first => first.isFlatRule && alike first n)
          (fun first => absorb first n) kept with
      | none => rfl
      | some kept' => rfl

theorem takes_absorb {alike : Node → Node → Bool} {absorb : Node → Node → Node}
    (h : Absorbs alike absorb) {a b : Node} (hab : takes alike a b = true) (c : Node) :
    takes alike (absorb a b) c = takes alike a c := by
  unfold takes
  rw [h.flat a b hab, h.alike a b c hab, (takes_iff.1 hab).1]

/-- The first rule takes its share of the list and leaves the rest to the others. -/
theorem foldl_foldStep_cons {alike : Node → Node → Bool} {absorb : Node → Node → Node}
    (h : Absorbs alike absorb) (rest : List Node) (a : Node) (kept : List Node) :
    rest.foldl (foldStep alike absorb) (a :: kept) =
      (rest.filter (takes alike a)).foldl absorb a ::
        (rest.filter (fun b => !takes alike a b)).foldl (foldStep alike absorb) kept := by
  induction rest generalizing a kept with
  | nil => rfl
  | cons n rest ih =>
    rw [List.foldl_cons, foldStep_cons]
    cases hn : takes alike a n with
    | true =>
      have htakes : takes alike (absorb a n) = takes alike a := funext (takes_absorb h hn)
      rw [if_pos rfl, ih, htakes, List.filter_cons_of_pos hn,
        List.filter_cons_of_neg (by simp [hn]), List.foldl_cons]
    | false =>
      rw [if_neg (by simp), ih, List.filter_cons_of_neg (by simp [hn]),
        List.filter_cons_of_pos (by simp [hn]), List.foldl_cons]

/-- **Folding rules is grouping them**: every group is folded into its first member. -/
theorem foldRules_eq {alike : Node → Node → Bool} {absorb : Node → Node → Node}
    (h : Absorbs alike absorb) (nodes : List Node) :
    foldRules alike absorb nodes =
      (gather (takes alike) nodes).map (fun g => g.2.foldl absorb g.1) := by
  rw [foldRules_eq_foldl]
  induction nodes using gather_induction (takes alike) with
  | nil => rw [gather_nil]; rfl
  | cons a rest ih =>
    have hfirst : foldStep alike absorb [] a = [a] := by
      unfold foldStep
      split <;> rfl
    rw [List.foldl_cons, hfirst, foldl_foldStep_cons h, ih, gather_cons, List.map_cons]

/-! ## Adding up -/

/-- If taking a rule costs no more than the two rules, taking several costs no more than all. -/
theorem weight_foldl_absorb_le {alike : Node → Node → Bool} {absorb : Node → Node → Node}
    (h : Absorbs alike absorb) (weight : Node → Nat)
    (hw : ∀ a b, takes alike a b = true → weight (absorb a b) ≤ weight a + weight b)
    (rest : List Node) (a : Node) (hrest : ∀ b ∈ rest, takes alike a b = true) :
    weight (rest.foldl absorb a) ≤ weight a + (rest.map weight).sum := by
  induction rest generalizing a with
  | nil => exact Nat.le_refl _
  | cons b rest ih =>
    have hb : takes alike a b = true := hrest b List.mem_cons_self
    have hstep := ih (absorb a b) (fun c hc => by
      rw [takes_absorb h hb]
      exact hrest c (List.mem_cons_of_mem b hc))
    have hone := hw a b hb
    rw [List.foldl_cons, List.map_cons, List.sum_cons]
    omega

/-- **Folding rules costs no more than the rules**, whatever is counted, if that holds for two. -/
theorem sum_foldRules_le {alike : Node → Node → Bool} {absorb : Node → Node → Node}
    (h : Absorbs alike absorb) (weight : Node → Nat)
    (hw : ∀ a b, takes alike a b = true → weight (absorb a b) ≤ weight a + weight b)
    (nodes : List Node) :
    ((foldRules alike absorb nodes).map weight).sum ≤ (nodes.map weight).sum := by
  rw [foldRules_eq h, List.map_map]
  induction nodes using gather_induction (takes alike) with
  | nil =>
    rw [gather_nil]
    exact Nat.le_refl _
  | cons a rest ih =>
    have hfirst := weight_foldl_absorb_le h weight hw (rest.filter (takes alike a)) a
      (fun b hb => (List.mem_filter.1 hb).2)
    have hsplit := ((List.filter_append_perm (takes alike a) rest).map weight).sum_nat
    rw [List.map_append, List.sum_append_nat] at hsplit
    rw [gather_cons, List.map_cons, List.sum_cons, List.map_cons, List.sum_cons]
    simp only [Function.comp_apply] at hfirst ih ⊢
    omega

/-- What holds of the nodes and is kept by taking a rule holds of the nodes that are left. -/
theorem forall_mem_foldRules_of_takes {alike : Node → Node → Bool} {absorb : Node → Node → Node}
    (h : Absorbs alike absorb) {P : Node → Prop}
    (hP : ∀ a b, takes alike a b = true → P a → P b → P (absorb a b)) {nodes : List Node}
    (hnodes : ∀ n ∈ nodes, P n) : ∀ n ∈ foldRules alike absorb nodes, P n := by
  have hfold : ∀ (rest : List Node) (a : Node), (∀ b ∈ rest, takes alike a b = true) → P a →
      (∀ b ∈ rest, P b) → P (rest.foldl absorb a) := by
    intro rest
    induction rest with
    | nil => exact fun a _ ha _ => ha
    | cons b rest ih =>
      intro a htakes ha hrest
      have hb := htakes b List.mem_cons_self
      exact ih (absorb a b)
        (fun c hc => (takes_absorb h hb c).trans (htakes c (List.mem_cons_of_mem b hc)))
        (hP a b hb ha (hrest b List.mem_cons_self))
        (fun c hc => hrest c (List.mem_cons_of_mem b hc))
  rw [foldRules_eq h]
  intro n hn
  obtain ⟨g, hg, rfl⟩ := List.mem_map.1 hn
  have hmem := mem_of_mem_gather hg
  exact hfold g.2 g.1 (alike_of_mem_gather hg) (hnodes g.1 (hmem g.1 List.mem_cons_self))
    (fun b hb => hnodes b (hmem b (List.mem_cons_of_mem _ hb)))

theorem forall_mem_foldRules {alike : Node → Node → Bool} {absorb : Node → Node → Node}
    (h : Absorbs alike absorb) {P : Node → Prop} (hP : ∀ a b, P a → P b → P (absorb a b))
    {nodes : List Node} (hnodes : ∀ n ∈ nodes, P n) : ∀ n ∈ foldRules alike absorb nodes, P n :=
  forall_mem_foldRules_of_takes h (fun a b _ => hP a b) hnodes

/-- What is read off the nodes that are no rules is the same after rules are merged. -/
theorem filterMap_foldRules {alike : Node → Node → Bool} {absorb : Node → Node → Node}
    (h : Absorbs alike absorb) {α : Type} (g : Node → Option α)
    (hrule : ∀ n, n.isFlatRule = true → g n = none) (nodes : List Node) :
    (foldRules alike absorb nodes).filterMap g = nodes.filterMap g := by
  have hstep : ∀ kept n, (foldStep alike absorb kept n).filterMap g =
      kept.filterMap g ++ [n].filterMap g := by
    intro kept n
    induction kept with
    | nil =>
      rw [foldStep]
      split <;> rfl
    | cons a rest ih =>
      rw [foldStep_cons]
      split
      · next htakes =>
        obtain ⟨ha, hn, -⟩ := takes_iff.1 htakes
        rw [List.filterMap_cons_none (hrule _ (h.flat a n htakes)),
          List.filterMap_cons_none (hrule a ha), List.filterMap_cons_none (hrule n hn),
          List.filterMap_nil, List.append_nil]
      · rw [List.filterMap_cons, List.filterMap_cons, ih]
        cases g a <;> rfl
  have hall : ∀ kept, (nodes.foldl (foldStep alike absorb) kept).filterMap g =
      kept.filterMap g ++ nodes.filterMap g := by
    induction nodes with
    | nil => exact fun kept => (List.append_nil _).symm
    | cons n rest ih =>
      intro kept
      rw [List.foldl_cons, ih, hstep, List.append_assoc, ← List.filterMap_append]
      rfl
  exact hall []

end Node

end Theming.Sheet
