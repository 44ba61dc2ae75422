import Theming.Proofs.Token.Merging

set_option autoImplicit false

/-! # The order of paths

Leaves are listed key by key and level by level, so the lists of keys that lead to them are in order
(`pairwise_positions`). The paths that are joined from these keys need not be: joining puts a point
behind a key where a longer key goes on with another character. This is the only way in which the
order gets lost, and it takes a map beside a longer key that begins like the key of the map
(`ascending_iff`). Among keys that can stand in a path, what matters is whether the longer key goes on
with a character below the point, such as a hyphen (`Keyed.ascending_iff`). -/

namespace Theming.TokenSet

/-! ## The keys that lead to leaves -/

mutual

/-- The lists of keys that lead from a value to its leaves. -/
def positionsOf : Value → List (List String)
  | .map entries => positions entries
  | _ => [[]]
termination_by structural v => v

/-- The lists of keys that lead to the leaves of a set, in the order of the keys. -/
def positions : List (String × Value) → List (List String)
  | [] => []
  | (key, value) :: rest => (positionsOf value).map (key :: ·) ++ positions rest
termination_by structural entries => entries

end

variable {set : TokenSet}

theorem positionsOf_of_not_map {v : Value} (hv : v.isMap = false) : positionsOf v = [[]] := by
  cases v with
  | map entries => cases hv
  | bool b => rfl
  | int n => rfl
  | float x => rfl
  | str s => rfl

mutual

/-- The paths of leaves are joined from the keys that lead to them. -/
theorem map_leavesOf (path : String) : ∀ v : Value,
    (leavesOf path v).map (·.1) = (positionsOf v).map (pathBelow path)
  | .map entries => map_leavesBelow path entries
  | .bool _ => rfl
  | .int _ => rfl
  | .float _ => rfl
  | .str _ => rfl
termination_by structural v => v

theorem map_leavesBelow (path : String) : ∀ entries : List (String × Value),
    (leavesBelow path entries).map (·.1) = (positions entries).map (pathBelow path)
  | [] => rfl
  | (key, value) :: rest => by
    rw [leavesBelow, positions, List.map_append, List.map_append, map_leavesOf (join path key) value,
      map_leavesBelow path rest, List.map_map]
    rfl
termination_by structural entries => entries

end

theorem paths_eq (set : TokenSet) : paths set = (positions set).map pathOf :=
  map_leavesBelow "" set

theorem mem_positions {keys : List String} :
    keys ∈ positions set ↔ ∃ e ∈ set, ∃ rest ∈ positionsOf e.2, keys = e.1 :: rest := by
  induction set with
  | nil => simp [positions]
  | cons e rest ih =>
    obtain ⟨key, value⟩ := e
    rw [positions, List.mem_append, ih, List.mem_map]
    simp [eq_comm]

/-- The keys that are listed are those that lead to something that is no map. -/
theorem mem_positionsOf_iff {keys : List String} {v : Value} (hv : v.EachMap Table.Ordered) :
    keys ∈ positionsOf v ↔ ∃ w, v.at? keys = some w ∧ w.isMap = false := by
  induction keys generalizing v with
  | nil =>
    cases v using Value.mapCases with
    | map entries => simp [positionsOf, mem_positions, Value.isMap]
    | other v hmap => simp [positionsOf_of_not_map hmap, hmap]
  | cons key keys ih =>
    cases v using Value.mapCases with
    | map entries =>
      obtain ⟨hordered, hbelow⟩ := hv
      rw [eachMap_iff] at hbelow
      rw [positionsOf, mem_positions, Value.at?_cons]
      constructor
      · rintro ⟨⟨name, x⟩, hmem, rest, hrest, heq⟩
        obtain ⟨rfl, rfl⟩ := List.cons.inj heq
        rw [(Table.find?_eq_some_iff hordered).2 hmem]
        exact (ih (hbelow _ hmem)).1 hrest
      · rintro ⟨w, hat, hw⟩
        obtain ⟨x, hfind, hat⟩ := Option.bind_eq_some_iff.1 hat
        have hmem := Table.mem_of_find?_eq_some hfind
        exact ⟨(key, x), hmem, keys, (ih (hbelow _ hmem)).2 ⟨w, hat, hw⟩, rfl⟩
    | other v hmap =>
      rw [positionsOf_of_not_map hmap, Value.at?_eq_none_of_not_map hmap]
      simp

/-- **The keys that are listed lead to the leaves.** -/
theorem mem_positions_iff (h : InOrder set) {keys : List String} :
    keys ∈ positions set ↔ ∃ w, at? keys set = some w ∧ w.isMap = false := by
  have hiff : keys ∈ positionsOf (.map set) ↔
      ∃ w, (Value.map set).at? keys = some w ∧ w.isMap = false := mem_positionsOf_iff h
  cases keys with
  | nil => simp [mem_positions, at?]
  | cons key keys => exact hiff

/-! ## The order of keys -/

/-- Two lists of keys part, and the first one goes on with the lesser key. -/
def Precedes (p q : List String) : Prop :=
  ∃ front key key' rest rest', key < key' ∧ p = front ++ key :: rest ∧ q = front ++ key' :: rest'

theorem Precedes.cons {p q : List String} (h : Precedes p q) (key : String) :
    Precedes (key :: p) (key :: q) := by
  obtain ⟨front, k, k', rest, rest', hlt, rfl, rfl⟩ := h
  exact ⟨key :: front, k, k', rest, rest', hlt, rfl, rfl⟩

theorem Precedes.lt {p q : List String} (h : Precedes p q) : p < q := by
  obtain ⟨front, k, k', rest, rest', hlt, rfl, rfl⟩ := h
  exact List.append_left_lt (List.cons_lt_cons_iff.2 (Or.inl hlt))

/-- What holds between the entries of a list in order holds between two of them of which the first
    one precedes. -/
theorem Precedes.rel {R : List String → List String → Prop} {list : List (List String)}
    (hlist : list.Pairwise (fun p q => Precedes p q ∧ R p q)) {p q : List String} (hp : p ∈ list)
    (hq : q ∈ list) (h : Precedes p q) : R p q := by
  induction hlist with
  | nil => cases hp
  | cons hfirst _ ih =>
    rcases List.mem_cons.1 hp with rfl | hp'
    · rcases List.mem_cons.1 hq with rfl | hq'
      · exact absurd h.lt (List.lt_irrefl _)
      · exact (hfirst q hq').2
    · rcases List.mem_cons.1 hq with rfl | hq'
      · exact absurd (hfirst p hp').1.lt (List.lt_asymm h.lt)
      · exact ih hp' hq'

mutual

theorem pairwise_positionsOf : ∀ v : Value, v.EachMap Table.Ordered →
    (positionsOf v).Pairwise Precedes
  | .map entries, h => pairwise_positions entries h
  | .bool _, _ => List.pairwise_singleton _ _
  | .int _, _ => List.pairwise_singleton _ _
  | .float _, _ => List.pairwise_singleton _ _
  | .str _, _ => List.pairwise_singleton _ _
termination_by structural v => v

/-- **Leaves are listed in the order of their keys.** -/
theorem pairwise_positions : ∀ set : TokenSet, InOrder set → (positions set).Pairwise Precedes
  | [], _ => List.Pairwise.nil
  | (key, value) :: rest, ⟨hordered, hvalue, hrest⟩ => by
    obtain ⟨hfirst, hothers⟩ := List.pairwise_cons.1 hordered
    rw [positions, List.pairwise_append, List.pairwise_map]
    refine ⟨(pairwise_positionsOf value hvalue).imp (fun h => h.cons key),
      pairwise_positions rest ⟨hothers, hrest⟩, ?_⟩
    intro p hp q hq
    obtain ⟨below, -, rfl⟩ := List.mem_map.1 hp
    obtain ⟨e, he, below', -, rfl⟩ := mem_positions.1 hq
    exact ⟨[], key, e.1, below, below', hfirst e he, rfl, rfl⟩
termination_by structural set => set

end

/-! ## The order of joined keys -/

/-- What a path puts in front of a key. -/
def lead (path : String) : List Char := if path = "" then [] else path.toList ++ ['.']

theorem toList_join (path key : String) : (join path key).toList = lead path ++ key.toList := by
  unfold join lead
  split <;> simp

theorem pathOf_append_cons (front : List String) (key : String) (rest : List String) :
    pathOf (front ++ key :: rest) = pathBelow (join (pathOf front) key) rest := by
  rw [pathOf, pathBelow, List.foldl_append]
  rfl

/-- The characters of a path from a key on that is not empty. -/
theorem toList_pathOf {key : String} (hkey : key ≠ "") (front rest : List String) :
    (pathOf (front ++ key :: rest)).toList =
      lead (pathOf front) ++ (key.toList ++ rest.flatMap (fun k => '.' :: k.toList)) := by
  have hjoin : join (pathOf front) key ≠ "" := by
    intro hempty
    have hnil := congrArg String.toList hempty
    rw [toList_join] at hnil
    exact hkey (String.toList_injective (List.append_eq_nil_iff.1 hnil).2)
  rw [pathOf_append_cons, toList_pathBelow hjoin, toList_join, List.append_assoc]

theorem append_lt_append_left_iff (front a b : List Char) : front ++ a < front ++ b ↔ a < b := by
  induction front with
  | nil => rfl
  | cons c front ih => rw [List.cons_append, List.cons_append, List.cons_lt_cons_self, ih]

/-- Lists that differ before the first one ends stay in order, whatever stands behind them. -/
theorem append_lt_append {a b : List Char} (hlt : a < b) (hno : ¬ a <+: b) (s t : List Char) :
    a ++ s < b ++ t := by
  induction a generalizing b with
  | nil => exact absurd List.nil_prefix hno
  | cons c a ih =>
    cases b with
    | nil => cases hlt
    | cons d b =>
      rw [List.cons_append, List.cons_append, List.cons_lt_cons_iff]
      rcases List.cons_lt_cons_iff.1 hlt with hcd | ⟨rfl, hrest⟩
      · exact Or.inl hcd
      · exact Or.inr ⟨rfl, ih hrest (fun h => hno (List.cons_prefix_cons.2 ⟨rfl, h⟩))⟩

/-- Joining keeps the order of keys that differ before the first one ends. -/
theorem pathOf_lt_of_not_prefix {key key' : String} (hlt : key < key')
    (hno : ¬ key.toList <+: key'.toList) (front rest rest' : List String) :
    pathOf (front ++ key :: rest) < pathOf (front ++ key' :: rest') := by
  have hkey : key ≠ "" := by
    rintro rfl
    exact hno List.nil_prefix
  have hkey' : key' ≠ "" := by
    rintro rfl
    exact absurd (String.lt_iff.1 hlt) (List.not_lt_nil key.toList)
  rw [String.lt_iff, toList_pathOf hkey, toList_pathOf hkey', append_lt_append_left_iff]
  exact append_lt_append (String.lt_iff.1 hlt) hno _ _

section LongerKey

/-! ### A longer key

The second key begins with the first one and goes on with a character. -/

variable {key key' : String} {c : Char} {more : List Char}

theorem exists_cons_of_prefix (hbegins : key.toList <+: key'.toList) (hne : key ≠ key') :
    ∃ c more, key'.toList = key.toList ++ c :: more := by
  obtain ⟨behind, hkey'⟩ := hbegins
  cases behind with
  | nil => exact absurd (String.toList_injective (by simpa using hkey')) hne
  | cons c more => exact ⟨c, more, hkey'.symm⟩

theorem lt_of_longer (hkey' : key'.toList = key.toList ++ c :: more) : key < key' := by
  have hend : key.toList ++ [] < key.toList ++ c :: more :=
    List.append_left_lt (List.nil_lt_cons c more)
  rwa [List.append_nil, ← hkey'] at hend

theorem ne_empty_of_longer (hkey' : key'.toList = key.toList ++ c :: more) : key' ≠ "" := by
  rintro rfl
  simp at hkey'

/-- A leaf comes before what a longer key leads to. -/
theorem pathOf_lt_of_longer (hkey' : key'.toList = key.toList ++ c :: more)
    (front rest' : List String) :
    pathOf (front ++ [key]) < pathOf (front ++ key' :: rest') := by
  have hleaf : (pathOf (front ++ [key])).toList = lead (pathOf front) ++ (key.toList ++ []) := by
    rw [pathOf_append_cons, List.append_nil]
    exact toList_join (pathOf front) key
  rw [String.lt_iff, hleaf, toList_pathOf (ne_empty_of_longer hkey'), hkey', List.append_assoc]
  exact List.append_left_lt (List.append_left_lt (List.nil_lt_cons c _))

/-- A leaf below a key comes before what a longer key leads to if the longer one goes on with a
    character above the point, and behind it if that character is below the point. -/
theorem pathOf_lt_iff (hkey : key ≠ "") (hkey' : key'.toList = key.toList ++ c :: more)
    (hc : c ≠ '.') (front rest' : List String) (second : String) (rest : List String) :
    pathOf (front ++ key :: second :: rest) < pathOf (front ++ key' :: rest') ↔ '.' < c := by
  rw [String.lt_iff, toList_pathOf hkey, toList_pathOf (ne_empty_of_longer hkey'), hkey',
    List.append_assoc, append_lt_append_left_iff, append_lt_append_left_iff, List.flatMap_cons,
    List.cons_append, List.cons_append, List.cons_lt_cons_iff]
  exact or_iff_left (fun h => hc h.1.symm)

end LongerKey

/-! ## When paths ascend -/

/-- Whether the leaves below a key come before those that a longer key, one that begins with it,
    leads to. -/
def InTurn (set : TokenSet) : Prop :=
  ∀ front key key' rest rest', key.toList <+: key'.toList → key ≠ key' → rest ≠ [] →
    front ++ key :: rest ∈ positions set → front ++ key' :: rest' ∈ positions set →
    pathOf (front ++ key :: rest) < pathOf (front ++ key' :: rest')

/-- **Paths ascend exactly if leaves below keys come in turn with those of longer keys.** -/
theorem InOrder.ascending_iff (h : InOrder set) : (paths set).Pairwise (· < ·) ↔ InTurn set := by
  have hkeys := pairwise_positions set h
  rw [paths_eq, List.pairwise_map]
  constructor
  · intro hlt front key key' rest rest' hbegins hne _ hp hq
    obtain ⟨c, more, hkey'⟩ := exists_cons_of_prefix hbegins hne
    exact Precedes.rel (hkeys.and hlt) hp hq
      ⟨front, key, key', rest, rest', lt_of_longer hkey', rfl, rfl⟩
  · intro hturn
    refine hkeys.imp_of_mem ?_
    rintro _ _ hp hq ⟨front, key, key', rest, rest', hlt, rfl, rfl⟩
    by_cases hbegins : key.toList <+: key'.toList
    · have hne : key ≠ key' := fun heq => String.lt_irrefl key' (heq ▸ hlt)
      cases rest with
      | nil =>
        obtain ⟨c, more, hkey'⟩ := exists_cons_of_prefix hbegins hne
        exact pathOf_lt_of_longer hkey' front rest'
      | cons second rest =>
        exact hturn front key key' _ rest' hbegins hne (List.cons_ne_nil _ _) hp hq
    · exact pathOf_lt_of_not_prefix hlt hbegins front rest rest'

theorem Keyed.isKey_of_mem_positions (h : Keyed set) {keys : List String}
    (hmem : keys ∈ positions set) : ∀ key ∈ keys, IsKey key := by
  obtain ⟨w, hat, -⟩ := (mem_positions_iff h.inOrder).1 hmem
  cases keys with
  | nil => exact fun key hkey => absurd hkey List.not_mem_nil
  | cons key keys => exact Value.isKey_of_at? h hat

/-- Among keys that can stand in a path, leaves come in turn if no longer key goes on with a character
    below the point. -/
theorem Keyed.inTurn_iff (h : Keyed set) :
    InTurn set ↔ ∀ front key key' c more rest rest', key'.toList = key.toList ++ c :: more →
      rest ≠ [] → front ++ key :: rest ∈ positions set → front ++ key' :: rest' ∈ positions set →
      '.' < c := by
  have hiff : ∀ {front key key' c more rest rest'}, key'.toList = key.toList ++ c :: more →
      rest ≠ [] → front ++ key :: rest ∈ positions set → front ++ key' :: rest' ∈ positions set →
      (pathOf (front ++ key :: rest) < pathOf (front ++ key' :: rest') ↔ '.' < c) := by
    intro front key key' c more rest rest' hkey' hne hp hq
    obtain ⟨second, rest, rfl⟩ := List.exists_cons_of_ne_nil hne
    have hkey := h.isKey_of_mem_positions hp key (by simp)
    have hpoint := (h.isKey_of_mem_positions hq key' (by simp)).2
    have hc : c ≠ '.' := by
      rintro rfl
      exact hpoint (by simp [hkey'])
    exact pathOf_lt_iff hkey.1 hkey' hc front rest' second rest
  constructor
  · intro hturn front key key' c more rest rest' hkey' hne hp hq
    have hlt := lt_of_longer hkey'
    refine (hiff hkey' hne hp hq).1 (hturn front key key' rest rest' ?_ ?_ hne hp hq)
    · exact ⟨c :: more, hkey'.symm⟩
    · exact fun heq => String.lt_irrefl key' (heq ▸ hlt)
  · intro habove front key key' rest rest' hbegins hne hrest hp hq
    obtain ⟨c, more, hkey'⟩ := exists_cons_of_prefix hbegins hne
    exact (hiff hkey' hrest hp hq).2 (habove front key key' c more rest rest' hkey' hrest hp hq)

/-- **Paths and their order.** The paths that are listed are those of the leaves, one for each leaf,
    in the order of the keys that lead to them. They ascend, and so are all different, exactly if
    leaves below keys come in turn with those of longer keys. Among keys that can stand in a path, all
    paths are different, and they ascend exactly if no key of a map with a leaf is the beginning of a
    key beside it that leads to a leaf, too, and goes on with a character below the point. -/
theorem paths_ascending_iff (h : InOrder set) :
    (paths set = (positions set).map pathOf ∧ (positions set).Pairwise Precedes ∧
      ∀ keys, keys ∈ positions set ↔ ∃ w, at? keys set = some w ∧ w.isMap = false) ∧
    ((paths set).Pairwise (· < ·) ↔ InTurn set) ∧
    (Keyed set → (paths set).Nodup ∧
      ((paths set).Pairwise (· < ·) ↔
        ∀ front key key' c more rest rest', key'.toList = key.toList ++ c :: more → rest ≠ [] →
          front ++ key :: rest ∈ positions set → front ++ key' :: rest' ∈ positions set →
          '.' < c)) := by
  refine ⟨⟨paths_eq set, pairwise_positions set h, fun keys => mem_positions_iff h⟩,
    h.ascending_iff, fun hkeyed => ⟨nodup_paths hkeyed, ?_⟩⟩
  rw [h.ascending_iff, hkeyed.inTurn_iff]

/-- Longer keys that go on with a character above the point, on two levels. -/
theorem paths_ascending_iff_underscores :
    let set : TokenSet :=
      [("a", .map [("b", .map [("c", .int 1)]), ("b_d", .int 2)]), ("a_e", .int 3)]
    InOrder set ∧ Keyed set ∧ paths set = ["a.b.c", "a.b_d", "a_e"] ∧ InTurn set ∧
      (paths set).Nodup := by
  intro set
  have hordered : InOrder set := by decide +kernel
  have hkeyed : Keyed set := by decide +kernel
  have hpaths : (paths set).Pairwise (· < ·) := by decide +kernel
  obtain ⟨-, hturn, hplain⟩ := paths_ascending_iff hordered
  exact ⟨hordered, hkeyed, by decide +kernel, hturn.1 hpaths, (hplain hkeyed).1⟩

/-- A hyphen is below the point, and a key with a point is spelled like a path. -/
theorem paths_not_ascending :
    let hyphen : TokenSet := [("a", .map [("b", .int 1)]), ("a-", .int 2)]
    let point : TokenSet := [("a", .map [("b", .int 1)]), ("a.b", .int 2)]
    read? "\x7b\"a\": \x7b\"b\": 1\x7d, \"a-\": 2\x7d" = some hyphen ∧
      paths hyphen = ["a.b", "a-"] ∧ ¬ (paths hyphen).Pairwise (· < ·) ∧
      paths point = ["a.b", "a.b"] ∧ ¬ (paths point).Nodup := by
  decide +kernel

end Theming.TokenSet
