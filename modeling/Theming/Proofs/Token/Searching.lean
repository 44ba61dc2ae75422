import Mathlib.Logic.Relation
import Theming.Proofs.Token.Paths
import Theming.Token.Resolution

set_option autoImplicit false

/-! # Searching for cycles

A search from a leaf goes down the references and keeps what it learns as marks. It takes an answer
from a mark while the leaves above are still being searched, so what a mark means must not depend on
what comes later. It does not (`Dependencies.Sound`): a leaf marked as cyclic reaches a cycle, and
below any other marked leaf the references are well-founded. Leaves that are still being searched lie
above the one at hand, so to come back to one closes a cycle.

Hence every leaf gets a mark, and the right one, in whatever order leaves and references are listed
(`Dependencies.search_exact`). -/

namespace Theming

open Relation (ReflTransGen TransGen)

/-! ## Reaching a cycle -/

/-- Whether steps of a relation lead to a point from which they lead back to it. -/
def ReachesCycle {α : Type} (r : α → α → Prop) (a : α) : Prop :=
  ∃ b, ReflTransGen r a b ∧ TransGen r b b

namespace ReachesCycle

variable {α : Type} {r r' : α → α → Prop} {a : α}

theorem exists_step (h : ReachesCycle r a) : ∃ b, r a b := by
  obtain ⟨b, hreach, hcycle⟩ := h
  rcases ReflTransGen.cases_head hreach with rfl | ⟨c, hstep, -⟩
  · obtain ⟨c, hstep, -⟩ := TransGen.head'_iff.1 hcycle
    exact ⟨c, hstep⟩
  · exact ⟨c, hstep⟩

/-- What leads to a point that reaches a cycle reaches it too. -/
theorem head {b : α} (hstep : r a b) (h : ReachesCycle r b) : ReachesCycle r a := by
  obtain ⟨c, hreach, hcycle⟩ := h
  exact ⟨c, .head hstep hreach, hcycle⟩

/-- On the way to a cycle every point has a successor. -/
theorem mono (h : ReachesCycle r a) (himp : ∀ a b, r a b → (∃ c, r b c) → r' a b) :
    ReachesCycle r' a := by
  obtain ⟨b, hreach, hcycle⟩ := h
  have hsome : ∃ c, r b c := exists_step ⟨b, .refl, hcycle⟩
  refine ⟨b, ?_, ?_⟩
  · induction hreach using ReflTransGen.head_induction_on with
    | refl => exact .refl
    | @head a c hstep hrest ih =>
      exact .head (himp a c hstep (exists_step ⟨b, hrest, hcycle⟩)) ih
  · suffices h : ∀ c, TransGen r c b → TransGen r' c b from h b hcycle
    intro c hc
    induction hc using TransGen.head_induction_on with
    | single hstep => exact .single (himp _ _ hstep hsome)
    | @head a c hstep hrest ih =>
      obtain ⟨d, hd, -⟩ := TransGen.head'_iff.1 hrest
      exact .head (himp _ _ hstep ⟨d, hd⟩) ih

theorem acc_of_reflTransGen {b : α} (h : Acc r a) (hreach : ReflTransGen (flip r) a b) :
    Acc r b := by
  induction hreach with
  | refl => exact h
  | tail _ hstep ih => exact ih.inv hstep

/-- Where a relation is well-founded it reaches no cycle. -/
theorem not_of_acc (h : Acc r a) : ¬ ReachesCycle (flip r) a := by
  rintro ⟨b, hreach, hcycle⟩
  have hback : TransGen r b b := Relation.transGen_swap.1 hcycle
  have hacc := (acc_of_reflTransGen h hreach).transGen
  clear hreach hcycle
  induction hacc with
  | intro b _ ih => exact ih b hback hback

end ReachesCycle

namespace Dependencies

variable {graph : Dependencies}

/-! ## References -/

/-- Whether a path is among those that the text of a leaf refers to. -/
def Depends (graph : Dependencies) (target path : String) : Prop :=
  ∃ targets, (path, targets) ∈ graph ∧ target ∈ targets

/-- Whether a graph lists a leaf once. -/
def Unique (graph : Dependencies) : Prop :=
  ∀ path targets targets', (path, targets) ∈ graph → (path, targets') ∈ graph → targets = targets'

/-- A leaf that is listed once refers to what is found under its path. -/
theorem depends_iff (hunique : Unique graph) {path target : String} :
    graph.Depends target path ↔ ∃ targets, Table.find? path graph = some targets ∧
      target ∈ targets := by
  constructor
  · rintro ⟨targets, hmem, htarget⟩
    obtain ⟨found, hfound⟩ := Option.isSome_iff_exists.1
      (Table.find?_isSome_iff.2 (List.mem_map_of_mem (f := Prod.fst) hmem))
    rw [hunique _ _ _ hmem (Table.mem_of_find?_eq_some hfound)] at htarget
    exact ⟨found, hfound, htarget⟩
  · rintro ⟨targets, hfound, htarget⟩
    exact ⟨targets, Table.mem_of_find?_eq_some hfound, htarget⟩

/-- What is not in a graph refers to nothing. -/
theorem acc_of_find?_eq_none (hunique : Unique graph) {path : String}
    (h : Table.find? path graph = none) : Acc graph.Depends path := by
  constructor
  intro target hdepends
  obtain ⟨targets, hfound, -⟩ := (depends_iff hunique).1 hdepends
  rw [h] at hfound
  cases hfound

/-! ## Marks -/

/-- What it means that a search finds a leaf cyclic, or not. -/
def Answers (graph : Dependencies) (path : String) : Bool → Prop
  | true => ReachesCycle (flip graph.Depends) path
  | false => Acc graph.Depends path

/-- The answer is the only right one. -/
theorem Answers.iff {path : String} {cyclic : Bool} (h : graph.Answers path cyclic) :
    cyclic = true ↔ ReachesCycle (flip graph.Depends) path := by
  cases cyclic with
  | true => exact iff_of_true rfl h
  | false => exact iff_of_false Bool.false_ne_true (ReachesCycle.not_of_acc h)

/-- Whether the marks of leaves that were searched are right. -/
def Sound (graph : Dependencies) (marks : Marks) : Prop :=
  ∀ path cyclic, Table.find? path marks = some (.done cyclic) → graph.Answers path cyclic

/-- Whether the leaves that are still being searched lie above a leaf. -/
def OpenAbove (graph : Dependencies) (marks : Marks) (path : String) : Prop :=
  ∀ above, Table.find? above marks = some .visiting → TransGen (flip graph.Depends) above path

/-- What a search leaves of the marks before it: every leaf with a mark has one, and the same leaves
    are still being searched. -/
structure Extends (start after : Marks) : Prop where
  ordered : Table.Ordered start → Table.Ordered after
  marked : ∀ path, Table.has path start = true → Table.has path after = true
  visiting : ∀ path, Table.find? path after = some .visiting ↔
    Table.find? path start = some .visiting

theorem Extends.refl (marks : Marks) : Extends marks marks := ⟨id, fun _ => id, fun _ => Iff.rfl⟩

theorem Extends.trans {start middle after : Marks} (h : Extends start middle)
    (h' : Extends middle after) : Extends start after where
  ordered hordered := h'.ordered (h.ordered hordered)
  marked path hmarked := h'.marked path (h.marked path hmarked)
  visiting path := (h'.visiting path).trans (h.visiting path)

/-- To start with a leaf says nothing about it yet. -/
theorem Sound.start {marks : Marks} (h : graph.Sound marks) (path : String) :
    graph.Sound (Table.insert path .visiting marks) := by
  intro other cyclic hfind
  rw [Table.find?_insert] at hfind
  split at hfind
  · cases hfind
  · exact h other cyclic hfind

theorem Sound.finish {marks : Marks} (h : graph.Sound marks) {path : String} {cyclic : Bool}
    (hanswers : graph.Answers path cyclic) :
    graph.Sound (Table.insert path (.done cyclic) marks) := by
  intro other found hfind
  rw [Table.find?_insert] at hfind
  split at hfind
  · next heq =>
    cases hfind
    exact heq ▸ hanswers
  · exact h other found hfind

/-- Below a leaf, the leaf itself is being searched too. -/
theorem OpenAbove.down {marks : Marks} {path target : String} (h : graph.OpenAbove marks path)
    (hdepends : graph.Depends target path) :
    graph.OpenAbove (Table.insert path .visiting marks) target := by
  intro above habove
  have hstep : flip graph.Depends path target := hdepends
  rw [Table.find?_insert] at habove
  split at habove
  · next heq => exact heq ▸ .single hstep
  · exact (h above habove).tail hstep

/-- What is left of the marks when a leaf without one was searched. -/
theorem Extends.finish {start after : Marks} {path : String}
    (hfresh : Table.find? path start = none)
    (h : Extends (Table.insert path .visiting start) after) (cyclic : Bool) :
    Extends start (Table.insert path (.done cyclic) after) where
  ordered hordered :=
    Table.ordered_insert path _ (h.ordered (Table.ordered_insert path _ hordered))
  marked other hmarked := by
    rw [Table.has_insert, Bool.or_eq_true_iff]
    exact Or.inr (h.marked other (by rw [Table.has_insert, hmarked, Bool.or_true]))
  visiting other := by
    rw [Table.find?_insert]
    split
    · next heq => rw [heq, hfresh]; simp
    · next hne => rw [h.visiting other, Table.find?_insert, if_neg hne]

/-- A leaf reaches a cycle exactly if something that it refers to does. -/
theorem answers_of_targets (hunique : Unique graph) {path : String} {targets : List String}
    (hpath : Table.find? path graph = some targets) {cyclic : Bool}
    (hcyclic : cyclic = true → ∃ target ∈ targets, graph.Answers target true)
    (hgrounded : cyclic = false → ∀ target ∈ targets, graph.Answers target false) :
    graph.Answers path cyclic := by
  cases cyclic with
  | true =>
    obtain ⟨target, htarget, hreaches⟩ := hcyclic rfl
    exact .head ((depends_iff hunique).2 ⟨targets, hpath, htarget⟩) hreaches
  | false =>
    constructor
    intro target hdepends
    obtain ⟨targets', hfound, htarget⟩ := (depends_iff hunique).1 hdepends
    rw [hpath] at hfound
    cases hfound
    exact hgrounded rfl target htarget

/-- What a search from a leaf comes to. -/
structure Spec (graph : Dependencies) (start : Marks) (path : String) (cyclic : Bool)
    (after : Marks) : Prop where
  sound : graph.Sound after
  grows : Extends start after
  answers : graph.Answers path cyclic
  marked : Table.has path graph = true → Table.has path after = true

/-! ## One search -/

/-- If every search from one of some leaves is right, so are all of them in turn: they come to a
    cycle exactly if one of the leaves reaches one. -/
theorem visitEach_spec {bound : Nat}
    {visit : (marks : Marks) → unmarked graph marks < bound → String → Found graph marks}
    (hvisit : ∀ marks (hbound : unmarked graph marks < bound) path, graph.Sound marks →
      graph.OpenAbove marks path →
      Spec graph marks path (visit marks hbound path).cyclic (visit marks hbound path).marks)
    {marks : Marks} (hbound : unmarked graph marks < bound) {paths : List String}
    (hsound : graph.Sound marks) (hopen : ∀ path ∈ paths, graph.OpenAbove marks path) :
    let found := visitEach graph bound visit marks hbound paths
    graph.Sound found.marks ∧ Extends marks found.marks ∧
      (found.cyclic = true → ∃ path ∈ paths, graph.Answers path true) ∧
      (found.cyclic = false → ∀ path ∈ paths, graph.Answers path false) := by
  induction paths generalizing marks with
  | nil =>
    exact ⟨hsound, .refl marks, fun h => (by cases h), fun _ _ hmem => (by cases hmem)⟩
  | cons path rest ih =>
    have hfirst := hvisit marks hbound path hsound (hopen path List.mem_cons_self)
    -- The leaves that are still being searched are the same after the first search.
    have hopen' : ∀ target ∈ rest,
        graph.OpenAbove (visit marks hbound path).marks target := by
      intro target htarget above habove
      exact hopen target (List.mem_cons_of_mem _ htarget) above
        ((hfirst.grows.visiting above).1 habove)
    obtain ⟨hsound', hgrows, hcyclic, hgrounded⟩ :=
      ih (Nat.lt_of_le_of_lt (visit marks hbound path).unmarked_le hbound) hfirst.sound hopen'
    refine ⟨hsound', hfirst.grows.trans hgrows, fun h => ?_, fun h => ?_⟩
    · rcases Bool.or_eq_true_iff.1 h with hhere | hrest
      · exact ⟨path, List.mem_cons_self, hhere ▸ hfirst.answers⟩
      · obtain ⟨target, htarget, hanswer⟩ := hcyclic hrest
        exact ⟨target, List.mem_cons_of_mem _ htarget, hanswer⟩
    · obtain ⟨hhere, hrest⟩ := Bool.or_eq_false_iff.1 h
      refine List.forall_mem_cons.2 ⟨?_, hgrounded hrest⟩
      exact hhere ▸ hfirst.answers

/-- **A search from a leaf is right**, whatever is known already and whatever is still being
    searched above the leaf. -/
theorem visit_spec (hunique : Unique graph) {marks : Marks} {path : String}
    (hsound : graph.Sound marks) (hopen : graph.OpenAbove marks path) :
    Spec graph marks path (visit graph marks path).cyclic (visit graph marks path).marks := by
  -- By induction on the leaves without a mark, which get fewer on the way down.
  induction hn : unmarked graph marks using Nat.strongRecOn generalizing marks path with
  | _ n ih =>
    subst hn
    rw [visit]
    split
    · -- The leaf is still being searched further up: the way down from it leads back to it.
      next hmark =>
      have hcycle := hopen path hmark
      refine ⟨hsound, .refl marks, ⟨path, .refl, hcycle⟩, fun _ => ?_⟩
      rw [Table.has, hmark]
      rfl
    · next cyclic hmark =>
      refine ⟨hsound, .refl marks, hsound path cyclic hmark, fun _ => ?_⟩
      rw [Table.has, hmark]
      rfl
    · next hmark =>
      split
      · next hpath =>
        refine ⟨hsound, .refl marks, acc_of_find?_eq_none hunique hpath, fun hhas => ?_⟩
        rw [Table.has, hpath] at hhas
        cases hhas
      · next targets hpath =>
        have hbelow : ∀ target ∈ targets,
            graph.OpenAbove (Table.insert path .visiting marks) target := fun target htarget =>
          hopen.down ((depends_iff hunique).2 ⟨targets, hpath, htarget⟩)
        have hlt := unmarked_insert_lt hmark hpath .visiting
        obtain ⟨hsound', hgrows, hcyclic, hgrounded⟩ :=
          visitEach_spec (fun marks hbound path hsound hopen => ih _ hbound hsound hopen rfl) hlt
            (hsound.start path) hbelow
        have hanswers := answers_of_targets hunique hpath hcyclic hgrounded
        refine ⟨hsound'.finish hanswers, hgrows.finish hmark _, hanswers, fun _ => ?_⟩
        rw [Table.has_insert, decide_eq_true rfl, Bool.true_or]

/-! ## All searches -/

/-- Searches in turn leave nothing half searched, and the marks that they leave are right. -/
theorem search_spec (hunique : Unique graph) (paths : List String) :
    graph.Sound (search graph paths) ∧ Extends [] (search graph paths) ∧
      ∀ path ∈ paths, Table.has path graph = true → Table.has path (search graph paths) = true := by
  suffices h : ∀ marks, graph.Sound marks → (∀ path, Table.find? path marks ≠ some .visiting) →
      let after := paths.foldl (fun marks path => (visit graph marks path).marks) marks
      graph.Sound after ∧ Extends marks after ∧
        ∀ path ∈ paths, Table.has path graph = true → Table.has path after = true from
    h [] (fun _ _ hfind => (by cases hfind)) (fun _ hfind => (by cases hfind))
  induction paths with
  | nil => exact fun marks hsound _ => ⟨hsound, .refl marks, fun _ hmem => (by cases hmem)⟩
  | cons path rest ih =>
    intro marks hsound hclosed
    have hfirst : Spec graph marks path _ _ :=
      visit_spec hunique hsound (fun above habove => absurd habove (hclosed above))
    obtain ⟨hsound', hgrows, hmarked⟩ := ih _ hfirst.sound
      (fun other hopen => hclosed other ((hfirst.grows.visiting other).1 hopen))
    refine ⟨hsound', hfirst.grows.trans hgrows, List.forall_mem_cons.2 ⟨fun hhas => ?_, hmarked⟩⟩
    exact hgrows.marked path (hfirst.marked hhas)

/-- **Every leaf that is searched gets the right mark.** -/
theorem search_exact (hunique : Unique graph) {paths : List String} {path : String}
    (hmem : path ∈ paths) (hpath : Table.has path graph = true) :
    ∃ cyclic, Table.find? path (search graph paths) = some (.done cyclic) ∧
      graph.Answers path cyclic := by
  obtain ⟨hsound, hgrows, hmarked⟩ := search_spec hunique paths
  obtain ⟨mark, hmark⟩ := Option.isSome_iff_exists.1 (hmarked path hmem hpath)
  cases mark with
  | visiting => exact absurd ((hgrows.visiting path).1 hmark) (by simp [Table.find?])
  | done cyclic => exact ⟨cyclic, hmark, hsound path cyclic hmark⟩

theorem ordered_search (hunique : Unique graph) (paths : List String) :
    Table.Ordered (search graph paths) :=
  (search_spec hunique paths).2.1.ordered List.Pairwise.nil

theorem mem_cyclic_iff_find? (hunique : Unique graph) (path : String) :
    path ∈ cyclic graph ↔
      Table.find? path (search graph (Table.names graph)) = some (.done true) := by
  rw [Table.find?_eq_some_iff (ordered_search hunique _), cyclic, List.mem_map]
  constructor
  · rintro ⟨⟨path', mark⟩, hmem, rfl⟩
    obtain ⟨hmem, hmark⟩ := List.mem_filter.1 hmem
    rwa [of_decide_eq_true hmark] at hmem
  · exact fun hmem => ⟨_, List.mem_filter.2 ⟨hmem, decide_eq_true rfl⟩, rfl⟩

theorem has_of_depends {path target : String} (h : graph.Depends target path) :
    Table.has path graph = true := by
  obtain ⟨targets, hmem, -⟩ := h
  exact Table.find?_isSome_iff.2 (List.mem_map_of_mem (f := Prod.fst) hmem)

/-- **The cyclic leaves are those from which a cycle can be reached.** -/
theorem mem_cyclic_iff (hunique : Unique graph) (path : String) :
    path ∈ cyclic graph ↔ ReachesCycle (flip graph.Depends) path := by
  rw [mem_cyclic_iff_find? hunique]
  constructor
  · exact (search_spec hunique _).1 path true
  · intro hcycle
    obtain ⟨target, hdepends⟩ := hcycle.exists_step
    have hhas := has_of_depends hdepends
    obtain ⟨cyclic, hmark, hanswers⟩ := search_exact hunique (Table.find?_isSome_iff.1 hhas) hhas
    rwa [hanswers.iff.2 hcycle] at hmark

theorem ordered_cyclic (hunique : Unique graph) : (cyclic graph).Pairwise (· < ·) :=
  List.pairwise_map.2 ((ordered_search hunique _).filter _)

/-- Whether a graph lists the same references as another one, in any order. -/
structure Relists (other graph : Dependencies) : Prop where
  unique : Unique other
  depends : ∀ path target, other.Depends target path ↔ graph.Depends target path

theorem relists_of_perm (hunique : Unique graph) {other : Dependencies} (h : other.Perm graph) :
    other.Relists graph where
  unique path targets targets' hmem hmem' :=
    hunique path targets targets' (h.mem_iff.1 hmem) (h.mem_iff.1 hmem')
  depends path target := by simp only [Depends, h.mem_iff]

/-- **The order does not matter**: neither that of the leaves nor that in which the references of a
    leaf are listed. Every search of all leaves ends with each of them marked as cyclic or not. -/
theorem search_relisted (hunique : Unique graph) {other : Dependencies}
    (h : other.Relists graph) {order : List String} (horder : Table.names other ⊆ order)
    {path : String} (hpath : path ∈ Table.names other) :
    ∃ cyclic, Table.find? path (search other order) = some (.done cyclic) ∧
      (cyclic = true ↔ path ∈ graph.cyclic) := by
  obtain ⟨cyclic, hmark, hanswers⟩ :=
    search_exact h.unique (horder hpath) (Table.find?_isSome_iff.2 hpath)
  have hsame : other.Depends = graph.Depends := by
    funext target path
    exact propext (h.depends path target)
  refine ⟨cyclic, hmark, ?_⟩
  rw [hanswers.iff, hsame, mem_cyclic_iff hunique]

end Dependencies

end Theming
