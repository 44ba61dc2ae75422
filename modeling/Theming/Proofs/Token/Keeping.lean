import Theming.Proofs.Token.Leaves
import Theming.Token.Resolution

set_option autoImplicit false

/-! # What resolution keeps

Passes and the final restoring change leaves one by one, each by a function of its path and value.
Such changes compose (`mapLeaves_mapLeaves`), so a whole resolution is one change of the leaves of
the first set (`Resolver.resolve_eq_mapLeaves`), even where leaves have become maps on the way. What
that change does to a leaf is found at the path of the leaf (`get?_mapLeaves_of_mem`), and nothing
else is ever listed under that path (`eq_of_mem_leaves_mapLeaves`).

The main result is `Resolver.resolve_keeps`: leaves that no pass may touch end as they were, and a
run that does not converge leaves no text half resolved. -/

namespace Theming

namespace TokenSet

variable {f g : String → Value → Value} {set : TokenSet}

/-! ## Changes one after the other -/

mutual

theorem mapLeavesOf_mapLeavesOf (path : String) : ∀ v : Value,
    mapLeavesOf g path (mapLeavesOf f path v) =
      mapLeavesOf (fun p w => mapLeavesOf g p (f p w)) path v
  | .map entries => by
    rw [mapLeavesOf, mapLeavesOf, mapLeavesOf, mapLeavesBelow_mapLeavesBelow path entries]
  | .bool b => rfl
  | .int n => rfl
  | .float x => rfl
  | .str s => rfl
termination_by structural v => v

theorem mapLeavesBelow_mapLeavesBelow (path : String) : ∀ entries : List (String × Value),
    mapLeavesBelow g path (mapLeavesBelow f path entries) =
      mapLeavesBelow (fun p w => mapLeavesOf g p (f p w)) path entries
  | [] => rfl
  | (key, value) :: rest => by
    rw [mapLeavesBelow, mapLeavesBelow, mapLeavesBelow,
      mapLeavesOf_mapLeavesOf (join path key) value, mapLeavesBelow_mapLeavesBelow path rest]
termination_by structural entries => entries

end

/-- **Two changes of the leaves are one.** The second one reaches into the maps that the first one
    puts in the place of leaves. -/
theorem mapLeaves_mapLeaves (f g : String → Value → Value) (set : TokenSet) :
    mapLeaves g (mapLeaves f set) = mapLeaves (fun p w => mapLeavesOf g p (f p w)) set :=
  mapLeavesBelow_mapLeavesBelow "" set

mutual

theorem mapLeavesOf_eq_self (path : String) : ∀ v : Value,
    (∀ q w, (q, w) ∈ leavesOf path v → f q w = w) → mapLeavesOf f path v = v
  | .map entries, h => by rw [mapLeavesOf, mapLeavesBelow_eq_self path entries h]
  | .bool b, h => h path (.bool b) List.mem_cons_self
  | .int n, h => h path (.int n) List.mem_cons_self
  | .float x, h => h path (.float x) List.mem_cons_self
  | .str s, h => h path (.str s) List.mem_cons_self
termination_by structural v => v

theorem mapLeavesBelow_eq_self (path : String) : ∀ entries : List (String × Value),
    (∀ q w, (q, w) ∈ leavesBelow path entries → f q w = w) →
    mapLeavesBelow f path entries = entries
  | [], _ => rfl
  | (key, value) :: rest, h => by
    rw [mapLeavesBelow,
      mapLeavesOf_eq_self (join path key) value (fun q w hw => h q w (List.mem_append_left _ hw)),
      mapLeavesBelow_eq_self path rest (fun q w hw => h q w (List.mem_append_right _ hw))]
termination_by structural entries => entries

end

/-- A change that leaves every leaf alone leaves the set alone. -/
theorem mapLeaves_eq_self (h : ∀ path v, (path, v) ∈ leaves set → f path v = v) :
    mapLeaves f set = set :=
  mapLeavesBelow_eq_self "" set h

theorem mapLeaves_self (set : TokenSet) : mapLeaves (fun _ w => w) set = set :=
  mapLeaves_eq_self (fun _ _ _ => rfl)

theorem mapLeavesOf_of_not_map {v : Value} (hv : v.isMap = false) (path : String) :
    mapLeavesOf f path v = f path v := by
  cases v with
  | map entries => cases hv
  | bool b => rfl
  | int n => rfl
  | float x => rfl
  | str s => rfl

/-! ## Changed leaves at their paths -/

theorem find?_mapLeavesBelow (key path : String) (entries : Table Value) :
    Table.find? key (mapLeavesBelow f path entries) =
      (Table.find? key entries).map (mapLeavesOf f (join path key)) := by
  induction entries with
  | nil => rfl
  | cons e rest ih =>
    obtain ⟨key', value⟩ := e
    rw [mapLeavesBelow, Table.find?, Table.find?, ih]
    split
    · next heq => rw [heq]; rfl
    · rfl

/-- Keys lead to the changed value. -/
theorem at?_mapLeavesOf {v w : Value} {keys : List String} (h : v.at? keys = some w)
    (path : String) :
    (mapLeavesOf f path v).at? keys = some (mapLeavesOf f (pathBelow path keys) w) := by
  induction keys generalizing v path with
  | nil =>
    rw [Value.at?_nil] at h ⊢
    rw [← Option.some.inj h]
    rfl
  | cons key keys ih =>
    cases v using Value.mapCases with
    | map entries =>
      rw [Value.at?_cons] at h
      obtain ⟨x, hx, hat⟩ := Option.bind_eq_some_iff.1 h
      rw [mapLeavesOf, Value.at?_cons, find?_mapLeavesBelow, hx]
      exact ih hat (join path key)
    | other v hmap => exact absurd (Value.at?_of_not_map hmap h).1 (by simp)

/-- What can be looked up and is no map is found changed, also where keys of maps have points. -/
theorem get?_mapLeaves_of_not_map (hnames : ∀ key ∈ Table.names set, key ≠ "")
    {path : String} {v : Value} (hget : get? path set = some v) (hmap : v.isMap = false) :
    get? path (mapLeaves f set) = some (f path v) := by
  have hjoin : join "" path = path := if_pos rfl
  have hfind := find?_mapLeavesBelow (f := f) path "" set
  rw [hjoin] at hfind
  rw [get?] at hget
  rw [get?, mapLeaves, hfind]
  cases hwhole : Table.find? path set with
  | some x =>
    -- The whole path is a key of the set itself.
    rw [hwhole] at hget
    obtain rfl := Option.some.inj hget
    exact congrArg some (mapLeavesOf_of_not_map hmap path)
  | none =>
    rw [hwhole] at hget
    have hne : keysOf path ≠ [] := by
      intro heq
      rw [heq] at hget
      cases hget
    rw [at?_eq_value hne] at hget
    have hfirst : ∀ key ∈ (keysOf path).head?, key ≠ "" := by
      intro key hkey
      obtain ⟨rest, hkeys⟩ := List.head?_eq_some_iff.1 hkey
      rw [hkeys, Value.at?_cons] at hget
      obtain ⟨x, hx, -⟩ := Option.bind_eq_some_iff.1 hget
      exact hnames key (Table.find?_isSome_iff.1 (Option.isSome_of_eq_some hx))
    have hchanged := at?_mapLeavesOf (f := f) hget ""
    rw [mapLeavesOf_of_not_map hmap, ← pathOf, pathOf_keysOf hfirst] at hchanged
    rw [Option.map_none, at?_eq_value hne]
    exact hchanged

/-- **A changed leaf is found at the path of the leaf**, whatever it has become. -/
theorem get?_mapLeaves_of_mem (hkeyed : Keyed set) {path : String} {v : Value}
    (hleaf : (path, v) ∈ leaves set) : get? path (mapLeaves f set) = some (f path v) := by
  obtain ⟨_, _, _, _, hmap⟩ := (mem_leaves_iff hkeyed).1 hleaf
  exact get?_mapLeaves_of_not_map (fun _ => hkeyed.ne_empty) (get?_of_mem_leaves hkeyed hleaf) hmap

/-! ## The leaves of a changed set -/

mutual

/-- The leaves of a changed value are those of its changed leaves. -/
theorem leavesOf_mapLeavesOf (path : String) : ∀ v : Value,
    leavesOf path (mapLeavesOf f path v) =
      (leavesOf path v).flatMap (fun leaf => leavesOf leaf.1 (f leaf.1 leaf.2))
  | .map entries => by
    rw [mapLeavesOf, leavesOf, leavesOf, leavesBelow_mapLeavesBelow path entries]
  | .bool b => (List.append_nil _).symm
  | .int n => (List.append_nil _).symm
  | .float x => (List.append_nil _).symm
  | .str s => (List.append_nil _).symm
termination_by structural v => v

theorem leavesBelow_mapLeavesBelow (path : String) : ∀ entries : List (String × Value),
    leavesBelow path (mapLeavesBelow f path entries) =
      (leavesBelow path entries).flatMap (fun leaf => leavesOf leaf.1 (f leaf.1 leaf.2))
  | [] => rfl
  | (key, value) :: rest => by
    rw [mapLeavesBelow, leavesBelow, leavesBelow, List.flatMap_append,
      leavesOf_mapLeavesOf (join path key) value, leavesBelow_mapLeavesBelow path rest]
termination_by structural entries => entries

end

mutual

/-- What lies in a value is listed under the path of the value, if it is no map, or below it. -/
theorem starts_of_mem_leavesOf (path : String) (hpath : path ≠ "") : ∀ v : Value,
    ∀ {q : String} {w : Value}, (q, w) ∈ leavesOf path v →
      (q = path ∧ w = v ∧ w.isMap = false) ∨ ∃ rest, q = path ++ "." ++ rest
  | .map entries, _, _, h => Or.inr (starts_of_mem_leavesBelow path hpath entries h)
  | .bool _, _, _, h => by cases List.mem_singleton.1 h; exact Or.inl ⟨rfl, rfl, rfl⟩
  | .int _, _, _, h => by cases List.mem_singleton.1 h; exact Or.inl ⟨rfl, rfl, rfl⟩
  | .float _, _, _, h => by cases List.mem_singleton.1 h; exact Or.inl ⟨rfl, rfl, rfl⟩
  | .str _, _, _, h => by cases List.mem_singleton.1 h; exact Or.inl ⟨rfl, rfl, rfl⟩
termination_by structural v => v

theorem starts_of_mem_leavesBelow (path : String) (hpath : path ≠ "") :
    ∀ entries : List (String × Value), ∀ {q : String} {w : Value},
      (q, w) ∈ leavesBelow path entries →
      ∃ rest, q = path ++ "." ++ rest
  | [], _, _, h => by cases h
  | (key, value) :: others, q, w, h => by
    have hjoin : join path key = path ++ "." ++ key := if_neg hpath
    have hne : join path key ≠ "" := by
      rw [hjoin]
      simp [String.append_eq_empty_iff]
    rcases List.mem_append.1 h with h | h
    · rcases starts_of_mem_leavesOf (join path key) hne value h with ⟨rfl, _, _⟩ | ⟨rest, rfl⟩
      · exact ⟨key, hjoin⟩
      · exact ⟨key ++ "." ++ rest, by rw [hjoin]; simp [String.append_assoc]⟩
    · exact starts_of_mem_leavesBelow path hpath others h
termination_by structural entries => entries

end

/-- No leaf is listed below another one. -/
theorem ne_below_of_mem_leaves (hkeyed : Keyed set) {path q : String} {v w : Value}
    (hv : (path, v) ∈ leaves set) (hw : (q, w) ∈ leaves set) (rest : String) :
    q ≠ path ++ "." ++ rest := by
  rintro rfl
  obtain ⟨keys, hne, hpath, hat, hmap⟩ := (mem_leaves_iff hkeyed).1 hv
  obtain ⟨keys', hne', hpath', hat', -⟩ := (mem_leaves_iff hkeyed).1 hw
  rw [at?_eq_value hne] at hat
  rw [at?_eq_value hne'] at hat'
  -- The keys of the longer path go on behind those of the leaf.
  have hkeys : keys' = keys ++ keysOf rest := by
    rw [← keysOf_pathOf hne' (Value.isKey_of_at? hkeyed hat'), ← hpath',
      ← keysOf_pathOf hne (Value.isKey_of_at? hkeyed hat), ← hpath, keysOf_append]
  rw [hkeys, Value.at?_append, hat, Option.bind_some] at hat'
  exact keysOf_ne_nil rest (Value.at?_of_not_map hmap hat').1

theorem eq_of_mem_leaves (hkeyed : Keyed set) {path : String} {v w : Value}
    (hv : (path, v) ∈ leaves set) (hw : (path, w) ∈ leaves set) : w = v := by
  have h := get?_of_mem_leaves hkeyed hw
  rw [get?_of_mem_leaves hkeyed hv] at h
  exact (Option.some.inj h).symm

theorem ne_empty_of_mem_leaves (hkeyed : Keyed set) {path : String} {v : Value}
    (h : (path, v) ∈ leaves set) : path ≠ "" := by
  obtain ⟨keys, hne, rfl, hat, -⟩ := (mem_leaves_iff hkeyed).1 h
  rw [at?_eq_value hne] at hat
  have hkeys := Value.isKey_of_at? hkeyed hat
  intro heq
  have hsplit := keysOf_pathOf hne hkeys
  rw [heq] at hsplit
  rw [← hsplit] at hkeys
  exact (hkeys "" List.mem_cons_self).1 rfl

/-- **Under the path of a leaf a changed set lists only the changed leaf.** -/
theorem eq_of_mem_leaves_mapLeaves (hkeyed : Keyed set) {path : String} {v w : Value}
    (hv : (path, v) ∈ leaves set) (hw : (path, w) ∈ leaves (mapLeaves f set)) :
    w = f path v ∧ w.isMap = false := by
  have hleaves : leaves (mapLeaves f set) =
      (leaves set).flatMap (fun leaf => leavesOf leaf.1 (f leaf.1 leaf.2)) :=
    leavesBelow_mapLeavesBelow "" set
  rw [hleaves] at hw
  obtain ⟨⟨p, u⟩, hu, hmem⟩ := List.mem_flatMap.1 hw
  rcases starts_of_mem_leavesOf p (ne_empty_of_mem_leaves hkeyed hu) _ hmem with
    ⟨rfl, heq, hmap⟩ | ⟨rest, heq⟩
  · exact ⟨by rw [heq, eq_of_mem_leaves hkeyed hv hu], hmap⟩
  · exact absurd heq (ne_below_of_mem_leaves hkeyed hu hv rest)

end TokenSet

/-! ## Resolution -/

namespace Resolver

open TokenSet (Keyed leaves paths get? mapLeaves mapLeavesOf mapLeaves_mapLeaves
  mapLeavesOf_of_not_map)

variable {functions : Functions} {cyclic : List String} {set : TokenSet}

/-- Whether a change leaves alone the leaves of some paths and all leaves that are no texts. -/
def Spares (cyclic : List String) (f : String → Value → Value) : Prop :=
  ∀ path v, v.isMap = false → path ∈ cyclic ∨ v.asString? = none → f path v = v

theorem spares_step (snapshot : TokenSet) (functions : Functions) :
    Spares cyclic (step snapshot functions cyclic) := by
  intro path v _ hspared
  cases v with
  | str text =>
    rcases hspared with hcyclic | hnone
    · exact if_pos (List.contains_iff_mem.2 hcyclic)
    · cases hnone
  | bool b => rfl
  | int n => rfl
  | float x => rfl
  | map entries => rfl

theorem Spares.andThen {f g : String → Value → Value} (hf : Spares cyclic f)
    (hg : Spares cyclic g) : Spares cyclic (fun p w => mapLeavesOf g p (f p w)) := by
  intro path v hmap hspared
  dsimp only
  rw [hf path v hmap hspared, mapLeavesOf_of_not_map hmap, hg path v hmap hspared]

/-- **A run is one change of the leaves**, and spares what every pass spares. -/
theorem run_eq_mapLeaves (functions : Functions) (cyclic : List String) (left passes : Nat)
    (set : TokenSet) :
    ∃ f, Spares cyclic f ∧ (run functions cyclic left passes set).1 = mapLeaves f set := by
  induction left generalizing passes set with
  | zero => exact ⟨fun _ v => v, fun _ _ _ _ => rfl, (TokenSet.mapLeaves_self set).symm⟩
  | succ left ih =>
    rw [run]
    split
    · obtain ⟨f, hspares, hrun⟩ := ih (passes + 1) (pass functions cyclic set)
      refine ⟨_, (spares_step set functions).andThen hspares, ?_⟩
      rw [hrun, pass, mapLeaves_mapLeaves]
    · exact ⟨fun _ v => v, fun _ _ _ _ => rfl, (TokenSet.mapLeaves_self set).symm⟩

/-- Whether a value holds no reference in its text. -/
def IsFree (v : Value) : Prop := ∀ text, v = .str text → Segment.mayRefer text = false

/-- Restoring gives a leaf its first value, or it holds no reference. -/
theorem restoreLeaf_cases {before : TokenSet} {path : String} {first : Value}
    (h : get? path before = some first) (v : Value) :
    restoreLeaf before path v = first ∨ restoreLeaf before path v = v ∧ IsFree v := by
  cases v with
  | str text =>
    rw [restoreLeaf]
    cases hrefers : Segment.mayRefer text with
    | true => exact Or.inl (by rw [if_pos rfl, h]; rfl)
    | false =>
      refine Or.inr ⟨if_neg Bool.false_ne_true, ?_⟩
      rintro _ ⟨⟩
      exact hrefers
  | bool b => exact Or.inr ⟨rfl, fun _ h => by cases h⟩
  | int n => exact Or.inr ⟨rfl, fun _ h => by cases h⟩
  | float x => exact Or.inr ⟨rfl, fun _ h => by cases h⟩
  | map entries => exact Or.inr ⟨rfl, fun _ h => by cases h⟩

/-- **A resolution is one change of the leaves.** It spares the leaves that no pass may touch, and
    without convergence it gives a leaf that does not become a map its first value or a value
    without references. -/
theorem resolve_eq_mapLeaves (hkeyed : Keyed set) (functions : Functions) (resolver : Resolver) :
    ∃ f, (resolver.resolve set functions).1 = mapLeaves f set ∧
      ∀ path v, (path, v) ∈ leaves set →
        (path ∈ set.cyclicPaths functions ∨ v.asString? = none → f path v = v) ∧
        ((resolver.resolve set functions).2.converged = false → (f path v).isMap = false →
          f path v = v ∨ IsFree (f path v)) := by
  obtain ⟨f, hspares, hrun⟩ :=
    run_eq_mapLeaves functions (set.cyclicPaths functions) resolver.maxPasses 0 set
  have hspared : ∀ path v, (path, v) ∈ leaves set →
      path ∈ set.cyclicPaths functions ∨ v.asString? = none → f path v = v :=
    fun path v hleaf => hspares path v (TokenSet.isMap_of_mem_leaves hkeyed hleaf)
  rw [resolve]
  dsimp only
  split
  · next hconverged =>
    refine ⟨f, hrun, fun path v hleaf => ⟨hspared path v hleaf, fun hnot => ?_⟩⟩
    rw [hconverged] at hnot
    cases hnot
  · refine ⟨fun p w => mapLeavesOf (restoreLeaf set) p (f p w), ?_, fun path v hleaf => ?_⟩
    · rw [hrun, mapLeaves_mapLeaves]
    have hget := TokenSet.get?_of_mem_leaves hkeyed hleaf
    have hmap := TokenSet.isMap_of_mem_leaves hkeyed hleaf
    constructor
    · intro h
      dsimp only
      rw [hspared path v hleaf h, mapLeavesOf_of_not_map hmap]
      rcases restoreLeaf_cases hget v with heq | ⟨heq, _⟩ <;> exact heq
    · intro _ hstill
      dsimp only at hstill ⊢
      have hbefore : (f path v).isMap = false := by
        cases hf : f path v using Value.mapCases with
        | map entries =>
          rw [hf] at hstill
          cases hstill
        | other w hw => exact hw
      rw [mapLeavesOf_of_not_map hbefore]
      rcases restoreLeaf_cases hget (f path v) with heq | ⟨heq, hfree⟩
      · exact Or.inl heq
      · rw [heq]
        exact Or.inr hfree

/-- **Nothing is left half resolved.** A leaf that is still a leaf in the end has its first value if
    it is one that is left alone or is no text. If the passes do not converge it has its first value
    too, or a value without references. -/
theorem resolve_keeps (hkeyed : Keyed set) (functions : Functions) (resolver : Resolver)
    {path : String} (hbefore : path ∈ paths set)
    (hafter : path ∈ paths (resolver.resolve set functions).1) :
    ∃ v w, get? path set = some v ∧ get? path (resolver.resolve set functions).1 = some w ∧
      w.isMap = false ∧
      (path ∈ set.cyclicPaths functions → w = v) ∧
      (v.asString? = none → w = v) ∧
      ((resolver.resolve set functions).2.converged = false → IsFree w ∨ w = v) := by
  obtain ⟨v, hv⟩ := TokenSet.mem_paths_iff.1 hbefore
  obtain ⟨w, hw⟩ := TokenSet.mem_paths_iff.1 hafter
  obtain ⟨f, hresult, hleaves⟩ := resolve_eq_mapLeaves hkeyed functions resolver
  obtain ⟨hspared, hrestored⟩ := hleaves path v hv
  rw [hresult] at hw ⊢
  obtain ⟨rfl, hmap⟩ := TokenSet.eq_of_mem_leaves_mapLeaves hkeyed hv hw
  refine ⟨v, f path v, TokenSet.get?_of_mem_leaves hkeyed hv,
    TokenSet.get?_mapLeaves_of_mem hkeyed hv, hmap, fun h => hspared (Or.inl h),
    fun h => hspared (Or.inr h), fun hnot => ?_⟩
  exact (hrestored hnot hmap).symm

/-- With a limit of one pass, a chain of two references gets its first text back. -/
theorem resolve_keeps_pending :
    ∃ v w, get? "a" [("a", .str "$b"), ("b", .str "$c"), ("c", .str "8px")] = some v ∧
      get? "a" ((withPasses 1 false).resolve
        [("a", .str "$b"), ("b", .str "$c"), ("c", .str "8px")] Functions.builtin).1 = some w ∧
      w.isMap = false ∧
      ("a" ∈ TokenSet.cyclicPaths [("a", .str "$b"), ("b", .str "$c"), ("c", .str "8px")]
        Functions.builtin → w = v) ∧
      (v.asString? = none → w = v) ∧
      (((withPasses 1 false).resolve
        [("a", .str "$b"), ("b", .str "$c"), ("c", .str "8px")]
        Functions.builtin).2.converged = false → IsFree w ∨ w = v) :=
  resolve_keeps (by decide +kernel) Functions.builtin (withPasses 1 false) (by decide +kernel)
    (by decide +kernel)

end Resolver

end Theming
