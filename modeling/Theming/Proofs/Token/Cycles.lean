import Mathlib.Tactic.ByContra
import Theming.Proofs.Token.Dependencies
import Theming.Proofs.Token.Keeping
import Theming.Proofs.Token.Leaves

set_option autoImplicit false

/-! # Cycles of references

Resolution leaves the leaves from which a cycle can be reached as they are
(`Resolver.cycles_stay`). It follows references that yield a value. A reference to a whole map
depends on each leaf of the map as well, but is not followed, so a cycle through one is expanded
(`Resolver.cycle_expands`). -/

namespace Theming

/-! ## References between leaves -/

namespace TokenSet

variable {functions : Functions} {set : TokenSet}

/-- Whether the text at a path refers to a name that reads `base` and yields `v`. -/
def RefersTo (functions : Functions) (set : TokenSet) (path base : String) (v : Value) : Prop :=
  ∃ text name, (path, .str text) ∈ leaves set ∧
    name ∈ Segment.referencedNames functions.contains text ∧
    lookupPath? name set = some base ∧ lookup? name set = some v

/-- Whether the text at a path refers to a leaf, or to a map that holds it. -/
def DependsOn (functions : Functions) (set : TokenSet) (path target : String) : Prop :=
  ∃ base v, RefersTo functions set path base v ∧ target ∈ (leavesOf base v).map (·.1)

/-- Whether the text at a path refers to a leaf itself. -/
def DependsOnValue (functions : Functions) (set : TokenSet) (path target : String) : Prop :=
  ∃ v, RefersTo functions set path target v ∧ v.isMap = false

theorem DependsOnValue.depends (hkeyed : Keyed set) {path target : String}
    (h : DependsOnValue functions set path target) :
    (set.dependencies functions).Depends target path := by
  obtain ⟨v, ⟨text, name, hleaf, hname, htarget, -⟩, -⟩ := h
  exact depends_of_mem_leaves hkeyed hleaf hname htarget

/-- The leaves with dependencies are text leaves. -/
theorem mem_leaves_of_mem_dependencies (hkeyed : Keyed set) {path : String}
    {targets : List String} (h : (path, targets) ∈ set.dependencies functions) :
    ∃ text, (path, Value.str text) ∈ leaves set ∧
      targets = (Segment.referencedNames functions.contains text).filterMap
        (lookupPath? · set) := by
  obtain ⟨text, hmem, htargets⟩ := mem_dependencies h
  exact ⟨text, (mem_flatten_iff hkeyed).1 hmem, htargets⟩

/-- A name that reads the path of a leaf yields the leaf. -/
theorem lookup?_of_lookupPath? (hkeyed : Keyed set) {name path : String} {v : Value}
    (h : lookupPath? name set = some path) (hleaf : (path, v) ∈ leaves set) :
    lookup? name set = some v := by
  cases hfound : lookup? name set with
  | none =>
    rw [lookupPath?_of_lookup?_eq_none hfound] at h
    cases h
  | some w =>
    obtain ⟨keys, hne, hkeys, hpath, hat⟩ := exists_keys_of_lookup? hkeyed hfound
    rw [h] at hpath
    rw [← get?_pathOf hkeyed hne hkeys, ← Option.some.inj hpath,
      get?_of_mem_leaves hkeyed hleaf] at hat
    exact hat.symm

/-- What depends on a leaf that depends on something itself refers to a value. -/
theorem dependsOnValue_of_depends (hkeyed : Keyed set) {path target other : String}
    (h : (set.dependencies functions).Depends target path)
    (hother : (set.dependencies functions).Depends other target) :
    DependsOnValue functions set path target := by
  obtain ⟨targets, hmem, htarget⟩ := h
  obtain ⟨others, hmem', -⟩ := hother
  obtain ⟨text, hleaf, rfl⟩ := mem_leaves_of_mem_dependencies hkeyed hmem
  obtain ⟨text', hleaf', -⟩ := mem_leaves_of_mem_dependencies hkeyed hmem'
  obtain ⟨name, hname, hread⟩ := List.mem_filterMap.1 htarget
  exact ⟨.str text', ⟨text, name, hleaf, hname, hread,
    lookup?_of_lookupPath? hkeyed hread hleaf'⟩, rfl⟩

/-- **The leaves that are left alone** are those from which a cycle can be reached over references
    to values. -/
theorem mem_cyclicPaths_iff (hkeyed : Keyed set) (path : String) :
    path ∈ set.cyclicPaths functions ↔ ReachesCycle (DependsOnValue functions set) path := by
  rw [cyclicPaths, Dependencies.mem_cyclic_iff (unique_dependencies set functions)]
  constructor
  · intro h
    refine h.mono fun path target hdepends hmore => ?_
    obtain ⟨other, hother⟩ := hmore
    exact dependsOnValue_of_depends hkeyed hdepends hother
  · exact fun h => h.mono fun path target hdepends _ => hdepends.depends hkeyed

end TokenSet

/-! ## Resolution -/

namespace Resolver

open TokenSet (Keyed leaves get? mapLeaves mapLeavesOf DependsOn DependsOnValue)

variable {set : TokenSet}

/-- What follows the passes changes leaves only. -/
theorem resolve_eq_mapLeaves_run (resolver : Resolver) (set : TokenSet) (functions : Functions) :
    ∃ f, (resolver.resolve set functions).1 =
      mapLeaves f
        (run functions (set.cyclicPaths functions) resolver.maxPasses 0 set).1 := by
  rw [resolve]
  dsimp only
  split
  · exact ⟨fun _ w => w, (TokenSet.mapLeaves_self _).symm⟩
  · exact ⟨restoreLeaf set, rfl⟩

/-- A text that stands for a map becomes one in the first pass, if it is not left alone. -/
theorem isMap_of_resolve (hkeyed : Keyed set) {functions : Functions} {resolver : Resolver}
    (hpasses : 1 ≤ resolver.maxPasses) {path text : String}
    (hleaf : (path, .str text) ∈ leaves set)
    (hcyclic : path ∉ set.cyclicPaths functions)
    (hmap : (evaluate text set.scope functions .all).value.isMap = true) :
    ∃ w, get? path (resolver.resolve set functions).1 = some w ∧ w.isMap = true := by
  have hstep : step set functions (set.cyclicPaths functions) path (.str text) =
      (evaluate text set.scope functions .all).value := by
    rw [step, if_neg (by rw [List.contains_iff_mem]; exact hcyclic)]
  cases hvalue : (evaluate text set.scope functions .all).value with
  | map entries =>
    rw [hvalue] at hstep
    have hchanges :
        (leaves set).any (changes set functions (set.cyclicPaths functions)) = true := by
      refine List.any_eq_true.2 ⟨_, hleaf, ?_⟩
      rw [changes, hstep]
      rfl
    obtain ⟨left, hleft⟩ := Nat.exists_eq_add_of_le' hpasses
    obtain ⟨f, hresult⟩ := resolve_eq_mapLeaves_run resolver set functions
    obtain ⟨g, -, hrun⟩ := run_eq_mapLeaves functions (set.cyclicPaths functions) left 1
      (pass functions (set.cyclicPaths functions) set)
    rw [hleft, run, if_pos hchanges, Nat.zero_add, hrun, pass, TokenSet.mapLeaves_mapLeaves,
      TokenSet.mapLeaves_mapLeaves] at hresult
    refine ⟨_, by rw [hresult]; exact TokenSet.get?_mapLeaves_of_mem hkeyed hleaf, ?_⟩
    rw [hstep]
    rfl
  | bool b => rw [hvalue] at hmap; cases hmap
  | int n => rw [hvalue] at hmap; cases hmap
  | float x => rw [hvalue] at hmap; cases hmap
  | str s => rw [hvalue] at hmap; cases hmap

/-- **Cycles of references to values are never expanded.** A leaf from which one can be reached
    keeps its text, at every limit of passes. The condition is exact for texts that stand for a
    map. -/
theorem cycles_stay (hkeyed : Keyed set) (functions : Functions) (resolver : Resolver)
    {path text : String} (hleaf : (path, .str text) ∈ leaves set) :
    (ReachesCycle (DependsOnValue functions set) path →
      get? path (resolver.resolve set functions).1 = some (.str text)) ∧
    ((evaluate text set.scope functions .all).value.isMap = true → 1 ≤ resolver.maxPasses →
      (get? path (resolver.resolve set functions).1 = some (.str text) ↔
        ReachesCycle (DependsOnValue functions set) path)) := by
  have hstays : ReachesCycle (DependsOnValue functions set) path →
      get? path (resolver.resolve set functions).1 = some (.str text) := by
    intro hcycle
    obtain ⟨f, hresult, hleaves⟩ := resolve_eq_mapLeaves hkeyed functions resolver
    rw [hresult, TokenSet.get?_mapLeaves_of_mem hkeyed hleaf,
      (hleaves path _ hleaf).1 (Or.inl ((TokenSet.mem_cyclicPaths_iff hkeyed path).2 hcycle))]
  refine ⟨hstays, fun hmap hpasses => ⟨fun hkept => ?_, hstays⟩⟩
  rw [← TokenSet.mem_cyclicPaths_iff hkeyed]
  by_contra hcyclic
  obtain ⟨w, hw, hwmap⟩ := isMap_of_resolve hkeyed hpasses hleaf hcyclic hmap
  rw [hkept] at hw
  rw [← Option.some.inj hw] at hwmap
  cases hwmap

/-- A cycle of a text and a function, with a leaf that leads into it. -/
theorem cycles_stay_mixed :
    get? "c" ((standard false).resolve
        [("a", .str "1px $b"), ("b", .str "lighten($a, 0.1)"), ("c", .str "$b")]
        Functions.builtin).1 = some (.str "$b") := by
  refine (cycles_stay (by decide +kernel) Functions.builtin (standard false)
    (by decide +kernel)).1 ?_
  exact (TokenSet.mem_cyclicPaths_iff (by decide +kernel) "c").1 (by decide +kernel)

/-- **A cycle through a map is expanded.** The leaf `a` refers to the map `m`, which holds a leaf
    that refers to `a`; it becomes a map. -/
theorem cycle_expands :
    Keyed [("a", .str "$m"), ("m", .map [("x", .str "$a")])] ∧
      ReachesCycle
        (DependsOn Functions.builtin [("a", .str "$m"), ("m", .map [("x", .str "$a")])]) "a" ∧
      get? "a" ((withPasses 1 false).resolve
        [("a", .str "$m"), ("m", .map [("x", .str "$a")])] Functions.builtin).1 ≠
        some (.str "$m") := by
  refine ⟨by decide +kernel, ⟨"a", .refl, ?_⟩, by decide +kernel⟩
  have hmap : DependsOn Functions.builtin [("a", .str "$m"), ("m", .map [("x", .str "$a")])]
      "a" "m.x" :=
    ⟨"m", .map [("x", .str "$a")], ⟨"$m", "m", by decide +kernel, by decide +kernel,
      by decide +kernel, by decide +kernel⟩, by decide +kernel⟩
  have hleaf : DependsOn Functions.builtin [("a", .str "$m"), ("m", .map [("x", .str "$a")])]
      "m.x" "a" :=
    ⟨"a", .str "$m", ⟨"$a", "a", by decide +kernel, by decide +kernel, by decide +kernel,
      by decide +kernel⟩, by decide +kernel⟩
  exact .tail (.single hmap) hleaf

end Resolver

end Theming
