import Theming.Proofs.Token.Searching

set_option autoImplicit false

/-! # Dependencies of token sets

A text leaf leads to the paths at which the names in its text are read. These are the references of
the graph that is searched for cycles, less the leaves without any, which lie on no cycle. So the
leaves that resolution leaves alone are exactly those from which references lead to a cycle
(`TokenSet.cyclicPaths_exact`). -/

namespace Theming

/-- An ordered table holds one value under a name. -/
theorem Table.Ordered.eq_of_mem {α : Type} {name : String} {a b : α} {t : Table α}
    (ht : Table.Ordered t) (ha : (name, a) ∈ t) (hb : (name, b) ∈ t) : a = b := by
  rw [← Table.find?_eq_some_iff ht] at ha hb
  rw [ha] at hb
  exact Option.some.inj hb

namespace TokenSet

variable {set : TokenSet} {functions : Functions}

theorem mem_dependencies {path : String} {targets : List String}
    (h : (path, targets) ∈ set.dependencies functions) :
    ∃ text, (path, Value.str text) ∈ flatten set ∧
      targets = (Segment.referencedNames functions.contains text).filterMap
        (lookupPath? · set) := by
  obtain ⟨⟨path', value⟩, hmem, heq⟩ := List.mem_filterMap.1 h
  cases value with
  | str text =>
    simp only at heq
    split at heq
    · cases heq
    · cases heq
      exact ⟨text, hmem, rfl⟩
  | bool b => cases heq
  | int n => cases heq
  | float x => cases heq
  | map entries => cases heq

theorem unique_dependencies (set : TokenSet) (functions : Functions) :
    (set.dependencies functions).Unique := by
  intro path targets targets' h h'
  obtain ⟨text, hmem, rfl⟩ := mem_dependencies h
  obtain ⟨text', hmem', rfl⟩ := mem_dependencies h'
  cases (ordered_flatten set).eq_of_mem hmem hmem'
  rfl

/-- Whether the text leaf at a path refers to a name that is read at another path. -/
def Leads (functions : Functions) (set : TokenSet) (path target : String) : Prop :=
  ∃ text name, (path, Value.str text) ∈ flatten set ∧
    name ∈ Segment.referencedNames functions.contains text ∧ lookupPath? name set = some target

theorem depends_iff_leads {path target : String} :
    (set.dependencies functions).Depends target path ↔ Leads functions set path target := by
  constructor
  · rintro ⟨targets, hmem, htarget⟩
    obtain ⟨text, hleaf, rfl⟩ := mem_dependencies hmem
    obtain ⟨name, hname, hread⟩ := List.mem_filterMap.1 htarget
    exact ⟨text, name, hleaf, hname, hread⟩
  · rintro ⟨text, name, hleaf, hname, hread⟩
    have hmem : target ∈ (Segment.referencedNames functions.contains text).filterMap
        (lookupPath? · set) := List.mem_filterMap.2 ⟨name, hname, hread⟩
    refine ⟨_, List.mem_filterMap.2 ⟨_, hleaf, ?_⟩, hmem⟩
    simp only
    rw [if_neg]
    intro hempty
    rw [List.isEmpty_iff.1 hempty] at hmem
    cases hmem

/-- A leaf depends on what its text refers to. -/
theorem depends_of_mem_leaves (hkeyed : Keyed set) {path text name target : String}
    (hleaf : (path, Value.str text) ∈ leaves set)
    (hname : name ∈ Segment.referencedNames functions.contains text)
    (htarget : lookupPath? name set = some target) :
    (set.dependencies functions).Depends target path := by
  exact depends_iff_leads.2 ⟨text, name, (mem_flatten_iff hkeyed).2 hleaf, hname, htarget⟩

/-- **The leaves that are left alone are exactly those from which references lead to a cycle**, each
    listed once. Every search ends and finds the same, in whatever order it comes to the leaves and
    to the references of a leaf. -/
theorem cyclicPaths_exact (functions : Functions) (set : TokenSet) :
    (∀ path, path ∈ set.cyclicPaths functions ↔ ReachesCycle (Leads functions set) path) ∧
      (set.cyclicPaths functions).Pairwise (· < ·) ∧
      ∀ (graph : Dependencies) (order : List String), graph.Relists (set.dependencies functions) →
        Table.names graph ⊆ order → ∀ path ∈ Table.names graph,
          ∃ cyclic, Table.find? path (graph.search order) = some (.done cyclic) ∧
            (cyclic = true ↔ path ∈ set.cyclicPaths functions) := by
  have hunique := unique_dependencies set functions
  have hleads : flip (set.dependencies functions).Depends = Leads functions set := by
    funext path target
    exact propext depends_iff_leads
  refine ⟨fun path => ?_, Dependencies.ordered_cyclic hunique, ?_⟩
  · rw [cyclicPaths, Dependencies.mem_cyclic_iff hunique, hleads]
  · intro graph order hgraph horder path hpath
    exact Dependencies.search_relisted hunique hgraph horder hpath

/-- A leaf above a cycle of two, beside one that refers to itself and one that refers to none of
    them, with the leaves searched backwards. -/
theorem cyclicPaths_exact_backwards :
    let set : TokenSet := [("a", .str "$b $d"), ("b", .str "${a}"), ("c", .str "var(--a, 1)"),
      ("d", .str "$e"), ("e", .int 1), ("f", .str "x$f")]
    let graph : Dependencies := (set.dependencies Functions.builtin).reverse
    ("c" ∈ set.cyclicPaths Functions.builtin ↔ ReachesCycle (Leads Functions.builtin set) "c") ∧
      ∃ cyclic, Table.find? "c" (graph.search (Table.names graph)) = some (.done cyclic) ∧
        (cyclic = true ↔ "c" ∈ set.cyclicPaths Functions.builtin) := by
  intro set graph
  obtain ⟨hexact, -, hsearch⟩ := cyclicPaths_exact Functions.builtin set
  have hgraph : graph.Relists (set.dependencies Functions.builtin) :=
    Dependencies.relists_of_perm (unique_dependencies set _) (List.reverse_perm _)
  exact ⟨hexact "c", hsearch graph _ hgraph (List.Subset.refl _) "c" (by decide +kernel)⟩

end TokenSet

end Theming
