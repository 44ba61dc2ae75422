import Theming.Proofs.Token.Paths

set_option autoImplicit false

/-! # Changing leaves

What changing every leaf of a set does to look-ups. As long as no leaf becomes a map, everything is
found where it was (`get?_mapLeaves`, `lookup?_mapLeaves`, `lookupPath?_mapLeaves`). What a name
yields and the path that it reads come from the same spelling of it (`found?`), and a name that refers
to no map refers to a leaf (`exists_leaf_of_lookup?`). -/

namespace Theming

/-- A value with every leaf changed. -/
def Value.mapLeaf (g : Value → Value) (v : Value) : Value :=
  TokenSet.mapLeavesOf (fun _ => g) "" v

/-- Whether a change of leaves makes no leaf of a value a map. -/
def Value.LeavesStay (g : Value → Value) (v : Value) : Prop :=
  ∀ keys w, v.at? keys = some w → w.isMap = false → (g w).isMap = false

namespace TokenSet

variable {g : Value → Value}

mutual

/-- A change that is the same for all leaves does not depend on where it starts. -/
theorem mapLeavesOf_eq (path : String) : ∀ v : Value,
    mapLeavesOf (fun _ => g) path v = v.mapLeaf g
  | .map entries => by
    rw [Value.mapLeaf, mapLeavesOf, mapLeavesOf, mapLeavesBelow_eq path entries]
  | .bool b => rfl
  | .int n => rfl
  | .float x => rfl
  | .str s => rfl
termination_by structural v => v

theorem mapLeavesBelow_eq (path : String) : ∀ entries : List (String × Value),
    mapLeavesBelow (fun _ => g) path entries = mapLeavesBelow (fun _ => g) "" entries
  | [] => rfl
  | (key, value) :: rest => by
    rw [mapLeavesBelow, mapLeavesBelow, mapLeavesOf_eq (join path key) value,
      mapLeavesOf_eq (join "" key) value, mapLeavesBelow_eq path rest]
termination_by structural entries => entries

end

theorem mapLeaf_map (entries : Table Value) :
    (Value.map entries).mapLeaf g = .map (mapLeaves (fun _ => g) entries) := rfl

theorem mapLeaf_of_not_map {v : Value} (hv : v.isMap = false) : v.mapLeaf g = g v := by
  cases v with
  | map entries => cases hv
  | bool b => rfl
  | int n => rfl
  | float x => rfl
  | str s => rfl

theorem mapLeaves_cons (key : String) (value : Value) (rest : Table Value) :
    mapLeaves (fun _ => g) ((key, value) :: rest) =
      (key, value.mapLeaf g) :: mapLeaves (fun _ => g) rest := by
  rw [mapLeaves, mapLeavesBelow, mapLeavesOf_eq]
  rfl

theorem mapLeaves_eq_map (set : TokenSet) :
    mapLeaves (fun _ => g) set = set.map (fun e => (e.1, e.2.mapLeaf g)) := by
  induction set with
  | nil => rfl
  | cons e rest ih =>
    obtain ⟨key, value⟩ := e
    rw [mapLeaves_cons, ih, List.map_cons]

theorem find?_mapLeaves (key : String) (set : TokenSet) :
    Table.find? key (mapLeaves (fun _ => g) set) =
      (Table.find? key set).map (Value.mapLeaf g) := by
  induction set with
  | nil => rfl
  | cons e rest ih =>
    obtain ⟨key', value⟩ := e
    rw [mapLeaves_cons, Table.find?, Table.find?, ih]
    split <;> rfl

end TokenSet

/-! ## Following keys -/

namespace Value

open TokenSet (mapLeaf_map mapLeaf_of_not_map mapLeaves find?_mapLeaves)

variable {g : Value → Value}

theorem at?_eq_none_of_not_map {v : Value} (hv : v.isMap = false) (key : String)
    (keys : List String) : v.at? (key :: keys) = none := by
  cases v with
  | map entries => cases hv
  | bool b => rfl
  | int n => rfl
  | float x => rfl
  | str s => rfl

theorem at?_append (v : Value) (keys keys' : List String) :
    v.at? (keys ++ keys') = (v.at? keys).bind (at? keys') := by
  induction keys generalizing v with
  | nil => simp
  | cons key keys ih =>
    cases v using mapCases with
    | map entries =>
      rw [List.cons_append, at?_cons, at?_cons, Option.bind_assoc]
      cases Table.find? key entries with
      | none => rfl
      | some x => exact ih x
    | other v hv =>
      rw [List.cons_append, at?_eq_none_of_not_map hv, at?_eq_none_of_not_map hv]
      rfl

theorem LeavesStay.of_at? {v w : Value} (h : v.LeavesStay g) {keys : List String}
    (hat : v.at? keys = some w) : w.LeavesStay g := by
  intro keys' x hx
  refine h (keys ++ keys') x ?_
  rw [at?_append, hat]
  exact hx

theorem LeavesStay.below {entries : Table Value} {key : String} {x : Value}
    (h : (Value.map entries).LeavesStay g) (hx : Table.find? key entries = some x) :
    x.LeavesStay g := by
  have hat : (Value.map entries).at? [key] = some x := by
    rw [at?_cons, hx]
    exact at?_nil x
  exact h.of_at? hat

theorem isMap_mapLeaf {v : Value} (h : v.LeavesStay g) : (v.mapLeaf g).isMap = v.isMap := by
  cases v using mapCases with
  | map entries => rfl
  | other v hmap => rw [mapLeaf_of_not_map hmap, h [] v (at?_nil v) hmap, hmap]

theorem at?_mapLeaf {v : Value} (h : v.LeavesStay g) (keys : List String) :
    (v.mapLeaf g).at? keys = (v.at? keys).map (mapLeaf g) := by
  induction keys generalizing v with
  | nil => simp
  | cons key keys ih =>
    cases v using mapCases with
    | map entries =>
      rw [mapLeaf_map, at?_cons, at?_cons, find?_mapLeaves]
      cases hx : Table.find? key entries with
      | none => rfl
      | some x => exact ih (h.below hx)
    | other v hmap =>
      rw [at?_eq_none_of_not_map hmap,
        at?_eq_none_of_not_map (by rw [isMap_mapLeaf h]; exact hmap)]
      rfl

theorem leaf_of_not_map {v : Value} (hv : v.isMap = false) : v.leaf = v := by
  cases v with
  | map entries => cases hv
  | bool b => rfl
  | int n => rfl
  | float x => rfl
  | str s => rfl

/-- A reference yields the changed value. -/
theorem leaf_mapLeaf {v : Value} (h : v.LeavesStay g) : (v.mapLeaf g).leaf = v.leaf.mapLeaf g := by
  cases v using mapCases with
  | map entries =>
    rw [mapLeaf_map, leaf, leaf, find?_mapLeaves]
    cases Table.find? leafKey entries <;> rfl
  | other v hmap =>
    rw [leaf_of_not_map hmap, leaf_of_not_map (by rw [isMap_mapLeaf h]; exact hmap)]

end Value

/-! ## Looking up -/

namespace TokenSet

variable {g : Value → Value} {set : TokenSet}

theorem at?_mapLeaves (h : (Value.map set).LeavesStay g) (keys : List String) :
    at? keys (mapLeaves (fun _ => g) set) = (at? keys set).map (Value.mapLeaf g) := by
  cases keys with
  | nil => rfl
  | cons key keys =>
    have hne : key :: keys ≠ [] := by simp
    rw [at?_eq_value hne, at?_eq_value hne, ← mapLeaf_map, Value.at?_mapLeaf h]

theorem get?_mapLeaves (h : (Value.map set).LeavesStay g) (path : String) :
    get? path (mapLeaves (fun _ => g) set) = (get? path set).map (Value.mapLeaf g) := by
  rw [get?, get?, find?_mapLeaves, at?_mapLeaves h]
  cases Table.find? path set <;> rfl

theorem leavesStay_of_get? (h : (Value.map set).LeavesStay g) {path : String} {v : Value}
    (hget : get? path set = some v) : v.LeavesStay g := by
  rw [get?] at hget
  cases hfind : Table.find? path set with
  | some x =>
    rw [hfind] at hget
    rw [← Option.some.inj hget]
    exact h.below hfind
  | none =>
    rw [hfind] at hget
    rw [at?_eq_value (keysOf_ne_nil path)] at hget
    exact h.of_at? hget

/-- **Names yield the changed values.** -/
theorem lookup?_mapLeaves (h : (Value.map set).LeavesStay g) (name : String) :
    lookup? name (mapLeaves (fun _ => g) set) = (lookup? name set).map (Value.mapLeaf g) := by
  have hfind : (spellings name).findSome? (fun path => get? path (mapLeaves (fun _ => g) set)) =
      ((spellings name).findSome? (fun path => get? path set)).map (Value.mapLeaf g) := by
    rw [List.map_findSome?]
    simp only [get?_mapLeaves h]
    rfl
  rw [lookup?, lookup?, hfind]
  cases hget : (spellings name).findSome? (fun path => get? path set) with
  | none => rfl
  | some v =>
    obtain ⟨path, _, hpath⟩ := List.exists_of_findSome?_eq_some hget
    exact congrArg some (Value.leaf_mapLeaf (leavesStay_of_get? h hpath))

theorem leafPath_of_not_map {v : Value} (hv : v.isMap = false) (path : String) :
    leafPath path v = path := by
  cases v with
  | map entries => cases hv
  | bool b => rfl
  | int n => rfl
  | float x => rfl
  | str s => rfl

theorem eachMap_of_not_map {P : Table Value → Prop} {v : Value} (hv : v.isMap = false) :
    v.EachMap P := by
  cases v with
  | map entries => cases hv
  | bool b => trivial
  | int n => trivial
  | float x => trivial
  | str s => trivial

theorem keyedHere_mapLeaves {entries : Table Value} (h : KeyedHere entries) :
    KeyedHere (mapLeaves (fun _ => g) entries) := by
  obtain ⟨hordered, hkeys⟩ := h
  rw [mapLeaves_eq_map]
  refine ⟨List.pairwise_map.2 hordered, ?_⟩
  intro e he
  obtain ⟨e', he', rfl⟩ := List.mem_map.1 he
  exact hkeys e' he'

mutual

/-- Keys stay what they are as long as a leaf that becomes a map becomes one with such keys. -/
theorem keyed_mapLeaf : ∀ v : Value,
    (∀ keys w, v.at? keys = some w → w.isMap = false → (g w).EachMap KeyedHere) →
    v.EachMap KeyedHere → (v.mapLeaf g).EachMap KeyedHere
  | .map entries, h, hkeyed => by
    have hbelow : ∀ e ∈ entries, ∀ keys w, e.2.at? keys = some w → w.isMap = false →
        (g w).EachMap KeyedHere := by
      intro e he keys w hat
      apply h (e.1 :: keys) w
      rw [Value.at?_cons, (Table.find?_eq_some_iff hkeyed.1.1).2 he]
      exact hat
    exact ⟨keyedHere_mapLeaves hkeyed.1, keyed_mapLeavesBelow entries hbelow hkeyed.2⟩
  | .bool b, h, _ => h [] (.bool b) rfl rfl
  | .int n, h, _ => h [] (.int n) rfl rfl
  | .float x, h, _ => h [] (.float x) rfl rfl
  | .str s, h, _ => h [] (.str s) rfl rfl
termination_by structural v => v

theorem keyed_mapLeavesBelow : ∀ entries : List (String × Value),
    (∀ e ∈ entries, ∀ keys w, e.2.at? keys = some w → w.isMap = false →
      (g w).EachMap KeyedHere) →
    EachMap KeyedHere entries → EachMap KeyedHere (mapLeaves (fun _ => g) entries)
  | [], _, _ => trivial
  | (key, value) :: rest, h, hkeyed => by
    rw [mapLeaves_cons]
    exact ⟨keyed_mapLeaf value (h _ List.mem_cons_self) hkeyed.1,
      keyed_mapLeavesBelow rest (fun e he => h e (List.mem_cons_of_mem _ he)) hkeyed.2⟩
termination_by structural entries => entries

end

/-- Keys stay what they are. -/
theorem keyed_mapLeaves (hkeyed : Keyed set) (h : (Value.map set).LeavesStay g) :
    Keyed (mapLeaves (fun _ => g) set) :=
  keyed_mapLeaf (.map set) (fun keys w hat hmap => eachMap_of_not_map (h keys w hat hmap)) hkeyed

/-- The leaves of the changed set are the changed leaves. -/
theorem mem_leaves_mapLeaves_iff (hkeyed : Keyed set) (h : (Value.map set).LeavesStay g)
    {path : String} {w : Value} :
    (path, w) ∈ leaves (mapLeaves (fun _ => g) set) ↔ ∃ v, (path, v) ∈ leaves set ∧ w = g v := by
  rw [mem_leaves_iff (keyed_mapLeaves hkeyed h)]
  constructor
  · rintro ⟨keys, hne, rfl, hat, hmap⟩
    rw [at?_mapLeaves h] at hat
    obtain ⟨v, hv, rfl⟩ := Option.map_eq_some_iff.1 hat
    have hstay : v.LeavesStay g := by
      rw [at?_eq_value hne] at hv
      exact h.of_at? hv
    rw [Value.isMap_mapLeaf hstay] at hmap
    exact ⟨v, (mem_leaves_iff hkeyed).2 ⟨keys, hne, rfl, hv, hmap⟩, mapLeaf_of_not_map hmap⟩
  · rintro ⟨v, hleaf, rfl⟩
    obtain ⟨keys, hne, rfl, hat, hmap⟩ := (mem_leaves_iff hkeyed).1 hleaf
    refine ⟨keys, hne, rfl, ?_, ?_⟩
    · rw [at?_mapLeaves h, hat, Option.map_some, mapLeaf_of_not_map hmap]
    · rw [at?_eq_value hne] at hat
      exact h keys v hat hmap

theorem isMap_of_mem_leaves (hkeyed : Keyed set) {path : String} {v : Value}
    (h : (path, v) ∈ leaves set) : v.isMap = false := by
  obtain ⟨_, _, _, _, hmap⟩ := (mem_leaves_iff hkeyed).1 h
  exact hmap

/-- A change that makes no leaf a map. -/
theorem leavesStay_of_leaves (hkeyed : Keyed set)
    (h : ∀ path v, (path, v) ∈ leaves set → (g v).isMap = false) :
    (Value.map set).LeavesStay g := by
  intro keys w hat hmap
  cases keys with
  | nil =>
    rw [Value.at?_nil] at hat
    rw [← Option.some.inj hat] at hmap
    cases hmap
  | cons key keys =>
    have hne : key :: keys ≠ [] := by simp
    rw [← at?_eq_value hne] at hat
    exact h _ w ((mem_leaves_iff hkeyed).2 ⟨_, hne, rfl, hat, hmap⟩)

/-! ## Names and leaves -/

/-- The characters of a dotted path. -/
theorem toList_pathBelow {path : String} (hpath : path ≠ "") (keys : List String) :
    (pathBelow path keys).toList = path.toList ++ keys.flatMap (fun key => '.' :: key.toList) := by
  induction keys generalizing path with
  | nil => simp [pathBelow]
  | cons key rest ih =>
    have hjoin : join path key = path ++ "." ++ key := if_neg hpath
    have hne : join path key ≠ "" := by
      rw [hjoin]
      intro heq
      simp [String.append_eq_empty_iff] at heq
    show (pathBelow (join path key) rest).toList = _
    rw [ih hne, hjoin]
    simp

/-- A text is its first piece and the others, each behind what they are cut at. -/
theorem eq_of_pieces {s piece : List Char} {others : List (List Char)}
    (h : Text.pieces (· == '.') s = piece :: others) :
    s = piece ++ others.flatMap (fun p => '.' :: p) := by
  induction s generalizing piece others with
  | nil =>
    cases h
    rfl
  | cons c rest ih =>
    rw [Text.pieces] at h
    split at h
    · next hc =>
      -- At a point the first piece ends.
      obtain ⟨rfl, rfl⟩ := List.cons.inj h
      cases hrest : Text.pieces (· == '.') rest with
      | nil => exact absurd hrest (Text.pieces_ne_nil _ rest)
      | cons p ps =>
        rw [ih hrest, beq_iff_eq.1 hc]
        rfl
    · cases hrest : Text.pieces (· == '.') rest with
      | nil => exact absurd hrest (Text.pieces_ne_nil _ rest)
      | cons p ps =>
        rw [hrest] at h
        obtain ⟨rfl, rfl⟩ := List.cons.inj h
        rw [ih hrest]
        rfl

/-- The keys of a path lead to the path, unless it starts with a point. -/
theorem pathOf_keysOf {path : String} (h : ∀ key ∈ (keysOf path).head?, key ≠ "") :
    pathOf (keysOf path) = path := by
  cases hpieces : Text.pieces (· == '.') path.toList with
  | nil => exact absurd hpieces (Text.pieces_ne_nil _ _)
  | cons piece others =>
    have hkeys : keysOf path = String.ofList piece :: others.map String.ofList := by
      rw [keysOf, hpieces]
      rfl
    rw [hkeys] at h ⊢
    have hfirst : String.ofList piece ≠ "" := h _ rfl
    have hjoin : join "" (String.ofList piece) = String.ofList piece := if_pos rfl
    show pathBelow (join "" (String.ofList piece)) (others.map String.ofList) = path
    apply String.toList_injective
    rw [hjoin, toList_pathBelow hfirst, eq_of_pieces hpieces]
    simp [List.flatMap_map]

/-- What a path addresses is what its keys lead to. -/
theorem exists_keys_of_get? (hkeyed : Keyed set) {path : String} {v : Value}
    (hget : get? path set = some v) :
    ∃ keys, keys ≠ [] ∧ (∀ key ∈ keys, IsKey key) ∧ pathOf keys = path ∧
      at? keys set = some v := by
  rw [get?] at hget
  cases hfind : Table.find? path set with
  | some x =>
    -- The whole path is a key of the set itself.
    rw [hfind] at hget
    obtain rfl := Option.some.inj hget
    refine ⟨[path], by simp, ?_, ?_, ?_⟩
    · intro key hkey
      rw [List.mem_singleton.1 hkey]
      exact hkeyed.isKey hfind
    · show join "" path = path
      exact if_pos rfl
    · rw [at?, hfind]
      exact Value.at?_nil x
  | none =>
    rw [hfind] at hget
    have hne := keysOf_ne_nil path
    have hkeys : ∀ key ∈ keysOf path, IsKey key := by
      rw [at?_eq_value hne] at hget
      exact Value.isKey_of_at? hkeyed hget
    have hfirst : ∀ key ∈ (keysOf path).head?, key ≠ "" :=
      fun key hkey => (hkeys key (List.mem_of_mem_head? hkey)).1
    exact ⟨keysOf path, hne, hkeys, pathOf_keysOf hfirst, hget⟩

/-- The first spelling of a name that leads to something, and what it leads to. -/
def found? (name : String) (set : TokenSet) : Option (String × Value) :=
  (spellings name).findSome? (fun path => (get? path set).map (fun v => (path, v)))

theorem get?_of_found? {name path : String} {v : Value} (h : found? name set = some (path, v)) :
    get? path set = some v := by
  obtain ⟨spelling, -, hfound⟩ := List.exists_of_findSome?_eq_some h
  obtain ⟨w, hget, heq⟩ := Option.map_eq_some_iff.1 hfound
  cases heq
  exact hget

/-- **A name yields what its spelling leads to.** -/
theorem lookup?_eq_found? (name : String) (set : TokenSet) :
    lookup? name set = (found? name set).map (fun e => e.2.leaf) := by
  rw [lookup?, found?, List.map_findSome?, List.map_findSome?]
  congr 1
  funext path
  rw [Function.comp_apply, Function.comp_apply, Option.map_map]
  rfl

/-- **A name reads the path that its spelling ends at.** -/
theorem lookupPath?_eq_found? (name : String) (set : TokenSet) :
    lookupPath? name set = (found? name set).map (fun e => leafPath e.1 e.2) := by
  rw [lookupPath?, found?, List.map_findSome?]
  congr 1
  funext path
  rw [Function.comp_apply, Option.map_map]
  rfl

/-- A reference ends at the path itself, unless it is that of a map with a `value` entry. -/
theorem leaf_cases (path : String) (w : Value) :
    ((∀ entries, w = .map entries → Table.find? Value.leafKey entries = none) ∧ w.leaf = w ∧
        leafPath path w = path) ∨
      ∃ entries x, w = .map entries ∧ Table.find? Value.leafKey entries = some x ∧ w.leaf = x ∧
        leafPath path w = path ++ "." ++ Value.leafKey := by
  cases w using Value.mapCases with
  | map entries =>
    cases hvalue : Table.find? Value.leafKey entries with
    | none =>
      refine Or.inl ⟨?_, by rw [Value.leaf, hvalue]; rfl, by simp [leafPath, Table.has, hvalue]⟩
      rintro _ ⟨⟩
      exact hvalue
    | some x =>
      exact Or.inr ⟨entries, x, rfl, hvalue, by rw [Value.leaf, hvalue]; rfl,
        by simp [leafPath, Table.has, hvalue]⟩
  | other w hw =>
    refine Or.inl ⟨?_, Value.leaf_of_not_map hw, leafPath_of_not_map hw path⟩
    rintro entries rfl
    cases hw

/-- A name that is not found reads no path. -/
theorem lookupPath?_of_lookup?_eq_none {name : String} (h : lookup? name set = none) :
    lookupPath? name set = none := by
  rw [lookup?_eq_found?, Option.map_eq_none_iff] at h
  rw [lookupPath?_eq_found?, h]
  rfl

theorem pathOf_append {keys : List String} (hne : pathOf keys ≠ "") (key : String) :
    pathOf (keys ++ [key]) = pathOf keys ++ "." ++ key := by
  rw [pathOf, pathBelow, List.foldl_append]
  show join (pathOf keys) key = _
  exact if_neg hne

/-- **A name yields what lies at the path that it reads.** -/
theorem exists_keys_of_lookup? (hkeyed : Keyed set) {name : String} {v : Value}
    (h : lookup? name set = some v) :
    ∃ keys, keys ≠ [] ∧ (∀ key ∈ keys, IsKey key) ∧
      lookupPath? name set = some (pathOf keys) ∧ at? keys set = some v := by
  rw [lookup?_eq_found?] at h
  obtain ⟨⟨path, w⟩, hfound, rfl⟩ := Option.map_eq_some_iff.1 h
  obtain ⟨keys, hne, hkeys, rfl, hat⟩ := exists_keys_of_get? hkeyed (get?_of_found? hfound)
  rw [lookupPath?_eq_found?, hfound, Option.map_some]
  rcases leaf_cases (pathOf keys) w with ⟨-, hleaf, hpath⟩ | ⟨entries, x, rfl, hvalue, hleaf, hpath⟩
  · exact ⟨keys, hne, hkeys, congrArg some hpath, by rw [hat, hleaf]⟩
  · -- The `value` entry stands in for the map.
    have hfilled : pathOf keys ≠ "" := by
      intro heq
      have hsplit := keysOf_pathOf hne hkeys
      rw [heq] at hsplit
      rw [← hsplit] at hkeys
      exact (hkeys "" List.mem_cons_self).1 rfl
    refine ⟨keys ++ [Value.leafKey], by simp, ?_, ?_, ?_⟩
    · intro key hkey
      rcases List.mem_append.1 hkey with hkey | hkey
      · exact hkeys key hkey
      · rw [List.mem_singleton.1 hkey]
        exact ⟨by decide, by decide⟩
    · rw [hpath, pathOf_append hfilled]
    · rw [hleaf, at?_eq_value (by simp), Value.at?_append, ← at?_eq_value hne, hat,
        Option.bind_some, Value.at?_cons, hvalue]
      exact Value.at?_nil x

/-- **A name that yields no map reads a leaf.** -/
theorem exists_leaf_of_lookup? (hkeyed : Keyed set) {name : String} {v : Value}
    (h : lookup? name set = some v) (hmap : v.isMap = false) :
    ∃ path, lookupPath? name set = some path ∧ (path, v) ∈ leaves set := by
  obtain ⟨keys, hne, _, hpath, hat⟩ := exists_keys_of_lookup? hkeyed h
  exact ⟨pathOf keys, hpath, (mem_leaves_iff hkeyed).2 ⟨keys, hne, rfl, hat, hmap⟩⟩

end TokenSet

end Theming
