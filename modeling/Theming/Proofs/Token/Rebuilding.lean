import Theming.Proofs.Token.Ascending
import Theming.Proofs.Token.Storing

set_option autoImplicit false

/-! # Rebuilding a set from its leaves

The leaves of a set lie at lists of keys of which none begins with another one. So they can be stored
one after the other, in any order, without one getting in the way of another one: each adds one leaf
(`leafAt_setAt_iff`), and what is built in the end has the leaves that were stored
(`leafAt_storeAll_iff`).

Storing makes no map that has no leaf. So the set that is built from the table of leaves is the
original one without such maps (`rebuild_flatten`). -/

namespace Theming.TokenSet

variable {s set : TokenSet} {v w : Value} {keys : List String}

/-! ## Maps without leaves -/

/-- Whether a value is a leaf or has one in it. -/
def hasLeaf (v : Value) : Bool := !(positionsOf v).isEmpty

mutual

/-- A value without the maps in it that have no leaf. -/
def prunedValue : Value → Value
  | .map entries => .map (pruned entries)
  | v => v
termination_by structural v => v

/-- A set without the maps in it that have no leaf. -/
def pruned : List (String × Value) → List (String × Value)
  | [] => []
  | (key, value) :: rest =>
    if hasLeaf value then (key, prunedValue value) :: pruned rest else pruned rest
termination_by structural entries => entries

end

theorem prunedValue_of_not_map (hv : v.isMap = false) : prunedValue v = v := by
  cases v with
  | map entries => cases hv
  | bool b => rfl
  | int n => rfl
  | float x => rfl
  | str s => rfl

theorem pruned_eq (set : TokenSet) :
    pruned set = (set.filter (fun e => hasLeaf e.2)).map (fun e => (e.1, prunedValue e.2)) := by
  induction set with
  | nil => rfl
  | cons e rest ih =>
    obtain ⟨key, value⟩ := e
    rw [pruned, ih, List.filter_cons]
    split <;> rfl

theorem hasLeaf_of_at? (hv : v.EachMap Table.Ordered) (hat : v.at? keys = some w)
    (hw : w.isMap = false) : hasLeaf v = true := by
  have hmem := (mem_positionsOf_iff hv).2 ⟨w, hat, hw⟩
  rw [hasLeaf, Bool.not_eq_true', List.isEmpty_eq_false_iff]
  exact List.ne_nil_of_mem hmem

/-- A map has a leaf if one of its entries has. -/
theorem hasLeaf_map_iff {entries : Table Value} :
    hasLeaf (.map entries) = true ↔ ∃ e ∈ entries, hasLeaf e.2 = true := by
  simp only [hasLeaf, Bool.not_eq_true', List.isEmpty_eq_false_iff_exists_mem]
  constructor
  · rintro ⟨keys, hkeys⟩
    obtain ⟨e, he, rest, hrest, rfl⟩ := mem_positions.1 hkeys
    exact ⟨e, he, rest, hrest⟩
  · rintro ⟨e, he, rest, hrest⟩
    exact ⟨e.1 :: rest, mem_positions.2 ⟨e, he, rest, hrest, rfl⟩⟩

theorem mem_pruned {e : String × Value} :
    e ∈ pruned set ↔ ∃ x, (e.1, x) ∈ set ∧ hasLeaf x = true ∧ e.2 = prunedValue x := by
  rw [pruned_eq, List.mem_map]
  constructor
  · rintro ⟨⟨key, x⟩, hmem, rfl⟩
    obtain ⟨hset, hleaf⟩ := List.mem_filter.1 hmem
    exact ⟨x, hset, hleaf, rfl⟩
  · obtain ⟨key, y⟩ := e
    rintro ⟨x, hset, hleaf, rfl⟩
    exact ⟨(key, x), List.mem_filter.2 ⟨hset, hleaf⟩, rfl⟩

theorem ordered_pruned (h : Table.Ordered set) : Table.Ordered (pruned set) := by
  rw [pruned_eq]
  exact List.pairwise_map.2 (List.Pairwise.filter _ h)

theorem keyedHere_pruned (h : KeyedHere set) : KeyedHere (pruned set) := by
  refine ⟨ordered_pruned h.1, fun e he => ?_⟩
  obtain ⟨x, hset, -⟩ := mem_pruned.1 he
  exact h.2 (e.1, x) hset

/-- Leaving out maps without leaves leaves no map empty that has a leaf. -/
theorem pruned_ne_nil (h : hasLeaf (.map set) = true) : pruned set ≠ [] := by
  obtain ⟨e, he, hleaf⟩ := hasLeaf_map_iff.1 h
  exact List.ne_nil_of_mem (mem_pruned (e := (e.1, prunedValue e.2)).2 ⟨e.2, he, hleaf, rfl⟩)

mutual

/-- What holds of the maps with leaves after maps without them have been left out. -/
theorem eachMap_prunedValue {P Q : Table Value → Prop}
    (h : ∀ entries, P entries → hasLeaf (.map entries) = true → Q (pruned entries)) :
    ∀ v : Value, hasLeaf v = true → v.EachMap P → (prunedValue v).EachMap Q
  | .map entries, hleaf, hv => ⟨h entries hv.1 hleaf, eachMap_pruned h entries hv.2⟩
  | .bool _, _, _ => trivial
  | .int _, _, _ => trivial
  | .float _, _, _ => trivial
  | .str _, _, _ => trivial
termination_by structural v => v

theorem eachMap_pruned {P Q : Table Value → Prop}
    (h : ∀ entries, P entries → hasLeaf (.map entries) = true → Q (pruned entries)) :
    ∀ entries : List (String × Value), EachMap P entries → EachMap Q (pruned entries)
  | [], _ => trivial
  | (key, value) :: rest, hv => by
    have hrest := eachMap_pruned h rest hv.2
    rw [pruned]
    split
    · next hleaf => exact ⟨eachMap_prunedValue h value hleaf hv.1, hrest⟩
    · exact hrest
termination_by structural entries => entries

end

theorem Keyed.pruned (h : Keyed set) : Keyed (pruned set) :=
  ⟨keyedHere_pruned h.1, eachMap_pruned (fun _ hkeyed _ => keyedHere_pruned hkeyed) set h.2⟩

theorem Keyed.filled_pruned (h : Keyed set) : Filled (TokenSet.pruned set) :=
  eachMap_pruned (fun _ _ hleaf => pruned_ne_nil hleaf) set h.2

/-- **Leaving out maps without leaves keeps the leaves where they are.** -/
theorem at?_prunedValue_iff (hv : v.EachMap Table.Ordered) (hw : w.isMap = false) :
    (prunedValue v).at? keys = some w ↔ v.at? keys = some w := by
  induction keys generalizing v with
  | nil =>
    rw [Value.at?_nil, Value.at?_nil, Option.some_inj, Option.some_inj]
    cases v using Value.mapCases with
    | map entries => exact iff_of_false (by rintro rfl; cases hw) (by rintro rfl; cases hw)
    | other v hmap => rw [prunedValue_of_not_map hmap]
  | cons key keys ih =>
    cases v using Value.mapCases with
    | map entries =>
      obtain ⟨hordered, hbelow⟩ := hv
      rw [eachMap_iff] at hbelow
      rw [prunedValue, Value.at?_cons, Value.at?_cons, Option.bind_eq_some_iff,
        Option.bind_eq_some_iff]
      constructor
      · rintro ⟨y, hy, hat⟩
        obtain ⟨x, hx, -, rfl⟩ := mem_pruned.1 (Table.mem_of_find?_eq_some hy)
        exact ⟨x, (Table.find?_eq_some_iff hordered).2 hx, (ih (hbelow _ hx)).1 hat⟩
      · rintro ⟨x, hx, hat⟩
        have hmem := Table.mem_of_find?_eq_some hx
        have hleaf := hasLeaf_of_at? (hbelow _ hmem) hat hw
        exact ⟨prunedValue x,
          (Table.find?_eq_some_iff (ordered_pruned hordered)).2 (mem_pruned.2 ⟨x, hmem, hleaf, rfl⟩),
          (ih (hbelow _ hmem)).2 hat⟩
    | other v hmap => rw [prunedValue_of_not_map hmap]

/-! ## Storing leaves -/

/-- Whether keys lead to a leaf. -/
def LeafAt (s : TokenSet) (keys : List String) (w : Value) : Prop :=
  at? keys s = some w ∧ w.isMap = false

theorem leafAt_iff : LeafAt s keys w ↔ (Value.map s).at? keys = some w ∧ w.isMap = false := by
  cases keys with
  | nil =>
    rw [Value.at?_nil]
    refine iff_of_false (fun h => by cases h.1) ?_
    rintro ⟨heq, hw⟩
    rw [← Option.some.inj heq] at hw
    cases hw
  | cons key keys => exact Iff.rfl

/-- No leaf lies below another one. -/
theorem LeafAt.eq_of_prefix {p q : List String} {v w : Value} (hp : LeafAt s p v)
    (hq : LeafAt s q w) (hbegins : p <+: q) : p = q := by
  rw [leafAt_iff] at hp hq
  obtain ⟨rest, rfl⟩ := hbegins
  rw [Value.at?_append, hp.1, Option.bind_some] at hq
  rw [(Value.at?_of_not_map hp.2 hq.1).1, List.append_nil]

/-- **Storing a leaf adds one**, if no leaf was in its way and it is in no leaf's way. -/
theorem leafAt_setAt_iff (hne : keys ≠ []) (hv : v.isMap = false)
    (hapart : ∀ q x, LeafAt s q x → ¬ keys <+: q ∧ ¬ q <+: keys) {q : List String} :
    LeafAt (setAt keys v s) q w ↔ (q = keys ∧ w = v) ∨ LeafAt s q w := by
  have hself : LeafAt (setAt keys v s) keys v := ⟨at?_setAt_self hne v s, hv⟩
  by_cases hbegins : keys <+: q ∨ q <+: keys
  · have hold : ¬ LeafAt s q w := fun h => hbegins.elim (hapart q w h).1 (hapart q w h).2
    rw [or_iff_left hold]
    constructor
    · intro hq
      have heq : q = keys := hbegins.elim (fun h => (hself.eq_of_prefix hq h).symm)
        (hq.eq_of_prefix hself)
      subst heq
      exact ⟨rfl, Option.some.inj (hq.1.symm.trans hself.1)⟩
    · rintro ⟨rfl, rfl⟩
      exact hself
  · obtain ⟨hpq, hqp⟩ := not_or.1 hbegins
    have hother : ¬ (q = keys ∧ w = v) := fun h => hpq (h.1 ▸ List.prefix_rfl)
    rw [or_iff_right hother, LeafAt, LeafAt, at?_setAt_of_not_prefix hpq hqp]

/-- The set after values were stored at paths, one after the other. -/
def storeAll (pairs : List (String × Value)) (s : TokenSet) : TokenSet :=
  pairs.foldl (fun s e => TokenSet.set e.1 e.2 s) s

/-- **Leaves that are apart are all there after they were stored**, in whatever order, and there are
    no others but those that were there before. -/
theorem leafAt_storeAll_iff {pairs : List (String × Value)} {s : TokenSet}
    (hleaf : ∀ e ∈ pairs, e.2.isMap = false) (hpairs : pairs.Pairwise (fun e e' => Apart e.1 e'.1))
    (hold : ∀ e ∈ pairs, ∀ q x, LeafAt s q x → ¬ keysOf e.1 <+: q ∧ ¬ q <+: keysOf e.1)
    {q : List String} :
    LeafAt (storeAll pairs s) q w ↔ (∃ e ∈ pairs, q = keysOf e.1 ∧ w = e.2) ∨ LeafAt s q w := by
  induction pairs generalizing s with
  | nil => simp [storeAll]
  | cons e rest ih =>
    obtain ⟨hfirst, hrest⟩ := List.pairwise_cons.1 hpairs
    obtain ⟨he, hothers⟩ := List.forall_mem_cons.1 hleaf
    have hstored : ∀ {q x}, LeafAt (TokenSet.set e.1 e.2 s) q x ↔
        (q = keysOf e.1 ∧ x = e.2) ∨ LeafAt s q x :=
      leafAt_setAt_iff (keysOf_ne_nil e.1) he (hold e List.mem_cons_self)
    show LeafAt (storeAll rest (TokenSet.set e.1 e.2 s)) q w ↔ _
    rw [ih hothers hrest, hstored, ← or_assoc, or_comm (b := q = keysOf e.1 ∧ w = e.2)]
    · simp
    · intro e' he' q x hq
      rcases hstored.1 hq with ⟨rfl, -⟩ | hq
      · exact (hfirst e' he').symm
      · exact hold e' (List.mem_cons_of_mem _ he') q x hq

theorem KeyedHere.insert {entries : Table Value} (h : KeyedHere entries) {key : String}
    (hkey : IsKey key) (v : Value) : KeyedHere (Table.insert key v entries) := by
  refine ⟨Table.ordered_insert key v h.1, fun e he => ?_⟩
  rcases Table.mem_insert he with rfl | he
  · exact hkey
  · exact h.2 e he

/-- Storing at keys that can stand in a path keeps that all keys can. -/
theorem Keyed.setAt (h : Keyed s) (hv : v.EachMap KeyedHere) (hkeys : ∀ key ∈ keys, IsKey key) :
    Keyed (setAt keys v s) := by
  cases keys with
  | nil => exact h
  | cons key keys =>
    refine ⟨?_, eachMap_setAt hv (fun k hk w t ht => ?_) h.2⟩
    · obtain ⟨w, hset⟩ := exists_setAt key keys v s
      rw [hset]
      exact h.1.insert (hkeys key List.mem_cons_self) w
    · have hhere : KeyedHere t := by
        rcases ht with ht | rfl
        · exact ht
        · exact ⟨List.Pairwise.nil, by simp⟩
      exact hhere.insert (hkeys k hk) w

/-- Storing makes no empty map. -/
theorem Filled.setAt (h : Filled s) (hv : v.EachMap (· ≠ [])) (keys : List String) :
    Filled (setAt keys v s) :=
  eachMap_setAt hv (fun key _ w t _ => Table.insert_ne_nil key w t) h

theorem keyed_filled_storeAll {pairs : List (String × Value)}
    (hpairs : ∀ e ∈ pairs, e.2.isMap = false ∧ ∀ key ∈ keysOf e.1, IsKey key) (hkeyed : Keyed s)
    (hfilled : Filled s) : Keyed (storeAll pairs s) ∧ Filled (storeAll pairs s) := by
  induction pairs generalizing s with
  | nil => exact ⟨hkeyed, hfilled⟩
  | cons e rest ih =>
    obtain ⟨⟨hleaf, hkeys⟩, hrest⟩ := List.forall_mem_cons.1 hpairs
    exact ih hrest (hkeyed.setAt (eachMap_of_not_map hleaf) hkeys)
      (hfilled.setAt (eachMap_of_not_map hleaf) _)

/-! ## The table of leaves -/

/-- The keys of the path of a leaf lead to it, and to no other one. -/
theorem Keyed.leafAt_of_mem_flatten (h : Keyed set) {path : String} (hmem : (path, w) ∈ flatten set) :
    LeafAt set (keysOf path) w ∧ (∀ key ∈ keysOf path, IsKey key) ∧ pathOf (keysOf path) = path := by
  obtain ⟨keys, hne, rfl, hat, hw⟩ := (mem_leaves_iff h).1 ((mem_flatten_iff h).1 hmem)
  have hkeys : ∀ key ∈ keys, IsKey key := by
    rw [at?_eq_value hne] at hat
    exact Value.isKey_of_at? h hat
  rw [keysOf_pathOf hne hkeys]
  exact ⟨⟨hat, hw⟩, hkeys, rfl⟩

theorem Keyed.leafAt_iff_mem_flatten (h : Keyed set) :
    LeafAt set keys w ↔ ∃ path, (path, w) ∈ flatten set ∧ keys = keysOf path := by
  constructor
  · rintro ⟨hat, hw⟩
    have hne : keys ≠ [] := by
      rintro rfl
      cases hat
    have hkeys : ∀ key ∈ keys, IsKey key := by
      rw [at?_eq_value hne] at hat
      exact Value.isKey_of_at? h hat
    refine ⟨pathOf keys, ?_, (keysOf_pathOf hne hkeys).symm⟩
    exact (mem_flatten_iff h).2 ((mem_leaves_iff h).2 ⟨keys, hne, rfl, hat, hw⟩)
  · rintro ⟨path, hmem, rfl⟩
    exact (h.leafAt_of_mem_flatten hmem).1

/-- The paths of different leaves are apart. -/
theorem Keyed.apart_flatten (h : Keyed set) :
    (flatten set).Pairwise (fun e e' => Apart e.1 e'.1) := by
  refine (ordered_flatten set).imp_of_mem ?_
  rintro ⟨p, v⟩ ⟨q, w⟩ hp hq hlt
  obtain ⟨hleafp, -, hpath⟩ := h.leafAt_of_mem_flatten hp
  obtain ⟨hleafq, -, hpath'⟩ := h.leafAt_of_mem_flatten hq
  have hne : keysOf p ≠ keysOf q := by
    intro heq
    rw [heq] at hpath
    exact String.lt_irrefl q ((hpath.symm.trans hpath') ▸ hlt)
  exact ⟨fun hbegins => hne (hleafp.eq_of_prefix hleafq hbegins),
    fun hbegins => hne (hleafq.eq_of_prefix hleafp hbegins).symm⟩

/-- **The table of leaves holds what is addressed and no map.** -/
theorem Keyed.find?_flatten_iff (h : Keyed set) {path : String} :
    Table.find? path (flatten set) = some w ↔ get? path set = some w ∧ w.isMap = false := by
  rw [Table.find?_eq_some_iff (ordered_flatten set), mem_flatten_iff h]
  constructor
  · exact fun hleaf => ⟨get?_of_mem_leaves h hleaf, isMap_of_mem_leaves h hleaf⟩
  · rintro ⟨hget, hw⟩
    obtain ⟨keys, hne, -, rfl, hat⟩ := exists_keys_of_get? h hget
    exact (mem_leaves_iff h).2 ⟨keys, hne, rfl, hat, hw⟩

/-- **The leaves of a set are there again** after they were stored in any order, and no others. -/
theorem Keyed.leafAt_storeAll_flatten_iff (h : Keyed set) {pairs : List (String × Value)}
    (hperm : pairs.Perm (flatten set)) : LeafAt (storeAll pairs []) keys w ↔ LeafAt set keys w := by
  have hleaf : ∀ e ∈ pairs, e.2.isMap = false :=
    fun e he => (h.leafAt_of_mem_flatten (hperm.subset he)).1.2
  have hapart : pairs.Pairwise (fun e e' => Apart e.1 e'.1) :=
    (hperm.pairwise_iff (fun hpq => ⟨hpq.2, hpq.1⟩)).2 h.apart_flatten
  have hnone : ∀ q x, ¬ LeafAt [] q x := fun q x hnil => by cases q <;> cases hnil.1
  rw [leafAt_storeAll_iff hleaf hapart (fun _ _ q x hnil => absurd hnil (hnone q x)),
    or_iff_left (hnone keys w), h.leafAt_iff_mem_flatten]
  constructor
  · rintro ⟨⟨path, v⟩, he, rfl, rfl⟩
    exact ⟨path, hperm.subset he, rfl⟩
  · rintro ⟨path, he, rfl⟩
    exact ⟨(path, w), hperm.symm.subset he, rfl, rfl⟩

/-- **The leaves of a set, stored in any order, rebuild it**, but for the maps in it that have no
    leaf. A path is in the table of leaves exactly if it addresses something that is no map. -/
theorem rebuild_flatten (h : Keyed set) :
    (∀ pairs, pairs.Perm (flatten set) → storeAll pairs [] = pruned set) ∧
      ∀ path, path ∈ Table.names (flatten set) ↔
        ∃ v, get? path set = some v ∧ v.isMap = false := by
  constructor
  · intro pairs hperm
    obtain ⟨hkeyed, hfilled⟩ : Keyed (storeAll pairs []) ∧ Filled (storeAll pairs []) := by
      refine keyed_filled_storeAll (fun e he => ?_) (by decide) trivial
      obtain ⟨hleaf, hkeys, -⟩ := h.leafAt_of_mem_flatten (hperm.subset he)
      exact ⟨hleaf.2, hkeys⟩
    refine eq_of_sameLeaves hkeyed h.pruned hfilled h.filled_pruned fun keys w hw => ?_
    have hstored : LeafAt (storeAll pairs []) keys w ↔ LeafAt set keys w :=
      h.leafAt_storeAll_flatten_iff hperm
    rw [leafAt_iff, leafAt_iff, and_iff_left hw, and_iff_left hw] at hstored
    exact hstored.trans (at?_prunedValue_iff (v := .map set) h.inOrder hw).symm
  · intro path
    rw [← Table.find?_isSome_iff, Option.isSome_iff_exists]
    exact exists_congr fun v => h.find?_flatten_iff

/-- A set with an empty map, a map with nothing but an empty map, and paths that do not ascend,
    rebuilt backwards. -/
theorem rebuild_flatten_backwards :
    let set : TokenSet := [("a", .map [("b", .map [("c", .int 1), ("d", .map [])])]),
      ("a-", .str "x"), ("e", .map [("f", .map [])])]
    Keyed set ∧ storeAll [("a.b.c", .int 1), ("a-", .str "x")] [] = pruned set ∧
      pruned set = [("a", .map [("b", .map [("c", .int 1)])]), ("a-", .str "x")] ∧
      ("e.f" ∈ Table.names (flatten set) ↔
        ∃ v, get? "e.f" set = some v ∧ v.isMap = false) := by
  intro set
  have hkeyed : Keyed set := by decide +kernel
  have hflatten : flatten set = [("a-", .str "x"), ("a.b.c", .int 1)] := by decide +kernel
  obtain ⟨hrebuild, hnames⟩ := rebuild_flatten hkeyed
  refine ⟨hkeyed, hrebuild _ ?_, by decide +kernel, hnames "e.f"⟩
  rw [hflatten]
  exact List.Perm.swap _ _ []

end Theming.TokenSet
