import Theming.Proofs.Token.Leaves

set_option autoImplicit false

/-! # Names and the paths that they read

A name yields a value and reads a path, and both come from the same spelling (`found?`). Reading the
path again leads to the value, as long as the path ends where the spelling does. The path of the
`value` entry of a map is a longer one, and there keys of the set that have points can get in the way
(`lookupPath?_reads_iff`). -/

namespace Theming.TokenSet

variable {set : TokenSet} {path : String}

/-- A path and its keys lead to the same, unless the path is a key with points. -/
theorem at?_keysOf_of_get? {v : Value} (hget : get? path set = some v)
    (hplain : ¬ ((Table.find? path set).isSome ∧ '.' ∈ path.toList)) :
    at? (keysOf path) set = some v := by
  rw [get?] at hget
  cases hfind : Table.find? path set with
  | none =>
    rw [hfind] at hget
    exact hget
  | some w =>
    rw [hfind] at hget
    have hpoint : '.' ∉ path.toList := fun hpoint => hplain ⟨by rw [hfind]; rfl, hpoint⟩
    rw [keysOf_of_not_mem hpoint, at?_eq_value (List.cons_ne_nil _ _), Value.at?_cons, hfind, ← hget]
    exact Value.at?_nil w

/-- Whether the `value` entry `x` of the map at a path is not hidden by keys of the set itself. -/
structure EntryInPlace (set : TokenSet) (path : String) (x : Value) : Prop where
  /-- A key that is spelled like the path of the entry holds the same. -/
  ofKey : ∀ y, Table.find? (path ++ "." ++ Value.leafKey) set = some y → y = x
  /-- Without such a key, the keys of the path lead to the entry, also if the path itself is a key
      with points. -/
  ofKeys : Table.find? (path ++ "." ++ Value.leafKey) set = none →
    (Table.find? path set).isSome → '.' ∈ path.toList →
    at? (keysOf path ++ [Value.leafKey]) set = some x

/-- Nothing is hidden in a set without points in its keys. -/
theorem entryInPlace_of_plain (hplain : ∀ key ∈ Table.names set, '.' ∉ key.toList) (path : String)
    (x : Value) : EntryInPlace set path x where
  ofKey y hfind := by
    have hmem := Table.find?_isSome_iff.1 (Option.isSome_of_eq_some hfind)
    exact absurd (by simp) (hplain _ hmem)
  ofKeys _ hsome hpoint := absurd hpoint (hplain path (Table.find?_isSome_iff.1 hsome))

/-- The path of a `value` entry leads to the entry exactly if it is not hidden. -/
theorem get?_value_iff {entries : Table Value} {x : Value}
    (hget : get? path set = some (.map entries))
    (hvalue : Table.find? Value.leafKey entries = some x) :
    get? (path ++ "." ++ Value.leafKey) set = some x ↔ EntryInPlace set path x := by
  have hkey : keysOf Value.leafKey = [Value.leafKey] := keysOf_of_not_mem (by decide)
  rw [get?, keysOf_append, hkey]
  constructor
  · intro h
    constructor
    · intro y hfind
      rw [hfind] at h
      exact Option.some.inj h
    · intro hfind _ _
      rw [hfind] at h
      exact h
  · intro h
    cases hfind : Table.find? (path ++ "." ++ Value.leafKey) set with
    | some y => exact congrArg some (h.ofKey y hfind)
    | none =>
      by_cases hdotted : (Table.find? path set).isSome ∧ '.' ∈ path.toList
      · exact h.ofKeys hfind hdotted.1 hdotted.2
      · have hat := at?_keysOf_of_get? hget hdotted
        rw [at?_eq_value (keysOf_ne_nil path)] at hat
        show at? (keysOf path ++ [Value.leafKey]) set = some x
        rw [at?_eq_value (by simp), Value.at?_append, hat, Option.bind_some, Value.at?_cons, hvalue]
        exact Value.at?_nil x

/-- **The path that a name reads leads to what the name yields**, with no exception but keys of the
    set that have points and hide the `value` entry of the map that the name stands for. A name reads
    no path exactly if it yields nothing. -/
theorem lookupPath?_reads_iff (name : String) (set : TokenSet) :
    (lookupPath? name set = none ↔ lookup? name set = none) ∧
      ((∀ path, lookupPath? name set = some path → get? path set = lookup? name set) ↔
        ∀ path entries x, found? name set = some (path, .map entries) →
          Table.find? Value.leafKey entries = some x → EntryInPlace set path x) ∧
      ((∀ key ∈ Table.names set, '.' ∉ key.toList) →
        ∀ path, lookupPath? name set = some path → get? path set = lookup? name set) := by
  have hiff : (∀ path, lookupPath? name set = some path → get? path set = lookup? name set) ↔
      ∀ path entries x, found? name set = some (path, .map entries) →
        Table.find? Value.leafKey entries = some x → EntryInPlace set path x := by
    rw [lookupPath?_eq_found?, lookup?_eq_found?]
    cases hfound : found? name set with
    | none => simp
    | some e =>
      obtain ⟨path, w⟩ := e
      have hget := get?_of_found? hfound
      simp only [Option.map_some, Option.some.injEq, forall_eq', Prod.mk.injEq, and_imp]
      rcases leaf_cases path w with ⟨hnone, hleaf, hpath⟩ | ⟨entries, x, rfl, hvalue, hleaf, hpath⟩
      · rw [hpath, hleaf]
        refine iff_of_true hget ?_
        rintro _ entries x rfl heq hvalue
        rw [hnone entries heq] at hvalue
        cases hvalue
      · rw [hpath, hleaf, get?_value_iff hget hvalue]
        constructor
        · rintro h _ _ y rfl heq hy
          cases heq
          rw [hvalue] at hy
          rwa [← Option.some.inj hy]
        · exact fun h => h path entries x rfl rfl hvalue
  refine ⟨?_, hiff, fun hplain => hiff.2 fun path _ x _ _ => entryInPlace_of_plain hplain path x⟩
  rw [lookupPath?_eq_found?, lookup?_eq_found?, Option.map_eq_none_iff, Option.map_eq_none_iff]

/-- A name with hyphens that are read as points, for a map with a `value` entry. -/
theorem lookupPath?_reads_hyphens :
    let set : TokenSet := [("colors", .map [("primary", .map [("value", .str "#007acc")])])]
    (∀ key ∈ Table.names set, '.' ∉ key.toList) ∧
      lookupPath? "colors-primary" set = some "colors.primary.value" ∧
      get? "colors.primary.value" set = lookup? "colors-primary" set := by
  intro set
  have hplain : ∀ key ∈ Table.names set, '.' ∉ key.toList := by decide
  have hpath : lookupPath? "colors-primary" set = some "colors.primary.value" := by
    decide +kernel
  exact ⟨hplain, hpath, (lookupPath?_reads_iff "colors-primary" set).2.2 hplain _ hpath⟩

/-- The map under the key `a.b` has a `value` entry, and the path of this entry leads nowhere. -/
theorem lookupPath?_reads_nothing :
    let set : TokenSet := [("a.b", .map [("value", .int 1)])]
    lookup? "a.b" set = some (.int 1) ∧ lookupPath? "a.b" set = some "a.b.value" ∧
      get? "a.b.value" set = none := by
  decide +kernel

end Theming.TokenSet
