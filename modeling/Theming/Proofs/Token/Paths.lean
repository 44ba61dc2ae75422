import Theming.Proofs.Text.Words
import Theming.Token.Set

set_option autoImplicit false

/-! # Paths of token sets

Leaves are listed by dotted paths and stored under lists of keys. Where every key is non-empty and
without a point (`TokenSet.Keyed`) the two say the same: a path splits into the keys that it was
joined from (`keysOf_pathOf`), a leaf is listed under a path exactly if it is reached by those keys
(`mem_leaves_iff`), no two leaves are listed under one path (`nodup_paths`), and `get?` follows the
keys (`get?_pathOf`).

The main result, `eq_of_flatten_eq`, is that such a set without empty maps is given by its leaves. -/

namespace Theming

/-! ## Ordered tables -/

namespace Table

variable {α : Type}

theorem mem_of_find?_eq_some {name : String} {value : α} {t : Table α}
    (h : find? name t = some value) : (name, value) ∈ t := by
  induction t with
  | nil => cases h
  | cons entry rest ih =>
    obtain ⟨key, old⟩ := entry
    rw [find?] at h
    split at h
    · next heq =>
      rw [heq, Option.some.inj h]
      exact List.mem_cons_self
    · exact List.mem_cons_of_mem _ (ih h)

theorem find?_eq_some_iff {name : String} {value : α} {t : Table α} (ht : Ordered t) :
    find? name t = some value ↔ (name, value) ∈ t := by
  refine ⟨mem_of_find?_eq_some, fun h => ?_⟩
  induction t with
  | nil => cases h
  | cons entry rest ih =>
    obtain ⟨key, old⟩ := entry
    obtain ⟨hbefore, hrest⟩ := List.pairwise_cons.1 ht
    rw [find?]
    rcases List.mem_cons.1 h with heq | hmem
    · cases heq
      rw [if_pos rfl]
    · have hlt : key < name := hbefore _ hmem
      have hne : name ≠ key := by
        rintro rfl
        exact String.lt_irrefl _ hlt
      rw [if_neg hne, ih hrest hmem]

/-- Two ordered tables with the same values under every name are the same. -/
theorem eq_of_find?_eq {t t' : Table α} (ht : Ordered t) (ht' : Ordered t')
    (h : ∀ name, find? name t = find? name t') : t = t' := by
  have hmem : ∀ entry : String × α, entry ∈ t ↔ entry ∈ t' := by
    rintro ⟨name, value⟩
    rw [← find?_eq_some_iff ht, ← find?_eq_some_iff ht', h]
  induction t generalizing t' with
  | nil =>
    cases t' with
    | nil => rfl
    | cons entry rest => exact absurd ((hmem entry).2 List.mem_cons_self) (by simp)
  | cons entry rest ih =>
    cases t' with
    | nil => exact absurd ((hmem entry).1 List.mem_cons_self) (by simp)
    | cons entry' rest' =>
      obtain ⟨hbefore, hrest⟩ := List.pairwise_cons.1 ht
      obtain ⟨hbefore', hrest'⟩ := List.pairwise_cons.1 ht'
      -- Both start with the entry of the least name.
      have hfirst : entry = entry' := by
        rcases List.mem_cons.1 ((hmem entry).1 List.mem_cons_self) with heq | hin'
        · exact heq
        · rcases List.mem_cons.1 ((hmem entry').2 List.mem_cons_self) with heq | hin
          · exact heq.symm
          · exact absurd (hbefore' _ hin') (String.lt_asymm (hbefore _ hin))
      subst hfirst
      have hmem' : ∀ other : String × α, other ∈ rest ↔ other ∈ rest' := by
        intro other
        have hother := hmem other
        rw [List.mem_cons, List.mem_cons] at hother
        constructor
        · intro hin
          rcases hother.1 (Or.inr hin) with rfl | hin'
          · exact absurd (hbefore _ hin) (String.lt_irrefl _)
          · exact hin'
        · intro hin'
          rcases hother.2 (Or.inr hin') with rfl | hin
          · exact absurd (hbefore' _ hin') (String.lt_irrefl _)
          · exact hin
      have hfind : ∀ name, find? name rest = find? name rest' := by
        intro name
        apply Option.ext
        intro value
        rw [find?_eq_some_iff hrest, find?_eq_some_iff hrest', hmem']
      rw [ih hrest hrest' hfind hmem']

end Table

/-! ## Maps inside values -/

mutual

/-- Whether every map in a value satisfies a condition. -/
def Value.EachMap (P : Table Value → Prop) : Value → Prop
  | .map entries => P entries ∧ TokenSet.EachMap P entries
  | _ => True
termination_by structural v => v

/-- Whether every map below some entries satisfies a condition. -/
def TokenSet.EachMap (P : Table Value → Prop) : List (String × Value) → Prop
  | [] => True
  | (_, value) :: rest => value.EachMap P ∧ TokenSet.EachMap P rest
termination_by structural entries => entries

end

namespace TokenSet

theorem eachMap_iff {P : Table Value → Prop} {entries : List (String × Value)} :
    EachMap P entries ↔ ∀ e ∈ entries, e.2.EachMap P := by
  induction entries with
  | nil => simp [EachMap]
  | cons e rest ih =>
    obtain ⟨key, value⟩ := e
    rw [EachMap, ih, List.forall_mem_cons]

theorem eachMap_insert {P : Table Value → Prop} {entries : List (String × Value)} {v : Value}
    (h : EachMap P entries) (hv : v.EachMap P) (key : String) :
    EachMap P (Table.insert key v entries) := by
  rw [eachMap_iff] at h ⊢
  intro e he
  rcases Table.mem_insert he with rfl | he
  · exact hv
  · exact h e he

end TokenSet

mutual

/-- What follows for one map follows for every map in a value. -/
theorem Value.EachMap.imp {P Q : Table Value → Prop} (h : ∀ entries, P entries → Q entries) :
    ∀ v : Value, v.EachMap P → v.EachMap Q
  | .map entries, hv => ⟨h entries hv.1, TokenSet.EachMap.imp h entries hv.2⟩
  | .bool _, _ => trivial
  | .int _, _ => trivial
  | .float _, _ => trivial
  | .str _, _ => trivial
termination_by structural v => v

theorem TokenSet.EachMap.imp {P Q : Table Value → Prop} (h : ∀ entries, P entries → Q entries) :
    ∀ entries : List (String × Value), TokenSet.EachMap P entries → TokenSet.EachMap Q entries
  | [], _ => trivial
  | (_, value) :: rest, hv => ⟨Value.EachMap.imp h value hv.1, TokenSet.EachMap.imp h rest hv.2⟩
termination_by structural entries => entries

end

mutual

/-- Decides whether every map in a value satisfies a condition. -/
def Value.decEachMap (P : Table Value → Prop) [DecidablePred P] :
    (v : Value) → Decidable (v.EachMap P)
  | .map entries =>
    match (inferInstance : Decidable (P entries)), TokenSet.decEachMap P entries with
    | isTrue here, isTrue below => isTrue ⟨here, below⟩
    | isFalse here, _ => isFalse (fun h => here h.1)
    | _, isFalse below => isFalse (fun h => below h.2)
  | .bool _ | .int _ | .float _ | .str _ => isTrue trivial
termination_by structural v => v

/-- Decides whether every map below some entries satisfies a condition. -/
def TokenSet.decEachMap (P : Table Value → Prop) [DecidablePred P] :
    (entries : List (String × Value)) → Decidable (TokenSet.EachMap P entries)
  | [] => isTrue trivial
  | (_, value) :: rest =>
    match value.decEachMap P, TokenSet.decEachMap P rest with
    | isTrue first, isTrue others => isTrue ⟨first, others⟩
    | isFalse first, _ => isFalse (fun h => first h.1)
    | _, isFalse others => isFalse (fun h => others h.2)
termination_by structural entries => entries

end

namespace TokenSet

/-- A key that can stand in a dotted path. -/
def IsKey (key : String) : Prop := key ≠ "" ∧ '.' ∉ key.toList

/-- Entries in order, under keys that can stand in a path. -/
def KeyedHere (entries : Table Value) : Prop :=
  Table.Ordered entries ∧ ∀ e ∈ entries, IsKey e.1

/-- All keys of a set, at every level, can stand in a dotted path. -/
def Keyed (set : TokenSet) : Prop := (Value.map set).EachMap KeyedHere

instance : DecidablePred KeyedHere := fun entries =>
  inferInstanceAs (Decidable (entries.Pairwise (fun a b => a.1 < b.1) ∧
    ∀ e ∈ entries, e.1 ≠ "" ∧ '.' ∉ e.1.toList))

instance : DecidablePred Keyed := fun set => Value.decEachMap KeyedHere (.map set)

/-- No map inside a set is empty. -/
def Filled (set : TokenSet) : Prop := EachMap (· ≠ []) set

/-! ## Splitting paths -/

/-- The path below another one that keys lead to. -/
def pathBelow (path : String) (keys : List String) : String := keys.foldl join path

/-- The path that keys lead to. -/
def pathOf (keys : List String) : String := pathBelow "" keys

theorem keysOf_ne_nil (path : String) : keysOf path ≠ [] := by
  rw [keysOf, ne_eq, List.map_eq_nil_iff]
  exact Text.pieces_ne_nil _ _

/-- A path without points is one key. -/
theorem keysOf_of_not_mem {path : String} (h : '.' ∉ path.toList) : keysOf path = [path] := by
  have hcut : ∀ c ∈ path.toList, (c == '.') = false := by
    intro c hc
    simp only [beq_eq_false_iff_ne]
    exact fun heq => h (heq ▸ hc)
  rw [keysOf, Text.pieces_of_not_mem _ hcut, List.map_singleton, String.ofList_toList]

theorem keysOf_key {key : String} (h : IsKey key) : keysOf key = [key] := keysOf_of_not_mem h.2

/-- The keys of a path have no points. -/
theorem not_mem_of_mem_keysOf {path key : String} (h : key ∈ keysOf path) : '.' ∉ key.toList := by
  obtain ⟨piece, hpiece, rfl⟩ := List.mem_map.1 h
  have hpieces : ∀ piece ∈ Text.pieces (· == '.') path.toList, ∀ c ∈ piece, c ≠ '.' :=
    Text.forall_mem_pieces_iff.2 fun c _ hc => by simpa using hc
  rw [String.toList_ofList]
  exact fun hpoint => hpieces piece hpiece '.' hpoint rfl

theorem keysOf_append (path rest : String) :
    keysOf (path ++ "." ++ rest) = keysOf path ++ keysOf rest := by
  have htoList : (path ++ "." ++ rest).toList = path.toList ++ '.' :: rest.toList := by simp
  rw [keysOf, keysOf, keysOf, htoList, Text.pieces_append _ (by decide), List.map_append]

theorem keysOf_join {path key : String} (hpath : path ≠ "") (hkey : IsKey key) :
    keysOf (join path key) = keysOf path ++ [key] := by
  rw [join, if_neg hpath, keysOf_append, keysOf_key hkey]

theorem join_ne_empty {path key : String} (hkey : IsKey key) : join path key ≠ "" := by
  unfold join
  split
  · exact hkey.1
  · simp [String.append_eq_empty_iff]

theorem keysOf_pathBelow {path : String} (hpath : path ≠ "") {keys : List String}
    (hkeys : ∀ key ∈ keys, IsKey key) : keysOf (pathBelow path keys) = keysOf path ++ keys := by
  induction keys generalizing path with
  | nil => simp [pathBelow]
  | cons key rest ih =>
    have hkey := hkeys key List.mem_cons_self
    show keysOf (pathBelow (join path key) rest) = _
    rw [ih (join_ne_empty hkey) (fun k hk => hkeys k (List.mem_cons_of_mem _ hk)),
      keysOf_join hpath hkey, List.append_assoc]
    rfl

/-- **A path splits into the keys that it was joined from.** -/
theorem keysOf_pathOf {keys : List String} (hne : keys ≠ []) (hkeys : ∀ key ∈ keys, IsKey key) :
    keysOf (pathOf keys) = keys := by
  cases keys with
  | nil => exact absurd rfl hne
  | cons key rest =>
    have hkey := hkeys key List.mem_cons_self
    have hjoin : join "" key = key := if_pos rfl
    show keysOf (pathBelow (join "" key) rest) = key :: rest
    rw [hjoin, keysOf_pathBelow hkey.1 (fun k hk => hkeys k (List.mem_cons_of_mem _ hk)),
      keysOf_key hkey]
    rfl

/-! ## Following keys -/

theorem Keyed.ordered {set : TokenSet} (h : Keyed set) : Table.Ordered set := h.1.1

/-- A map inside such a set is such a set. -/
theorem Keyed.below {set entries : TokenSet} (h : Keyed set) {key : String}
    (hfind : Table.find? key set = some (.map entries)) : Keyed entries :=
  eachMap_iff.1 h.2 (key, .map entries) (Table.mem_of_find?_eq_some hfind)

theorem Keyed.isKey {set : TokenSet} (h : Keyed set) {key : String} {value : Value}
    (hfind : Table.find? key set = some value) : IsKey key :=
  h.1.2 (key, value) (Table.mem_of_find?_eq_some hfind)

theorem Keyed.ne_empty {set : TokenSet} (h : Keyed set) {key : String}
    (hkey : key ∈ Table.names set) : key ≠ "" := by
  obtain ⟨e, he, rfl⟩ := List.mem_map.1 hkey
  exact (h.1.2 e he).1

end TokenSet

namespace Value

open TokenSet (Keyed KeyedHere IsKey EachMap eachMap_iff)

@[simp] theorem at?_nil (v : Value) : v.at? [] = some v := by
  cases v <;> rfl

theorem at?_cons (key : String) (keys : List String) (entries : Table Value) :
    (Value.map entries).at? (key :: keys) =
      (Table.find? key entries).bind (Value.at? keys) := rfl

theorem at?_of_not_map {v : Value} (hv : v.isMap = false) {keys : List String} {w : Value}
    (h : v.at? keys = some w) : keys = [] ∧ w = v := by
  cases keys with
  | nil =>
    rw [at?_nil] at h
    exact ⟨rfl, (Option.some.inj h).symm⟩
  | cons key keys =>
    cases v with
    | map entries => cases hv
    | bool => cases h
    | int => cases h
    | float => cases h
    | str => cases h

/-- The keys that lead anywhere can stand in a path. -/
theorem isKey_of_at? {v : Value} (hv : v.EachMap KeyedHere) {keys : List String} {w : Value}
    (h : v.at? keys = some w) : ∀ key ∈ keys, IsKey key := by
  induction keys generalizing v with
  | nil => intro key hkey; cases hkey
  | cons key rest ih =>
    cases v using mapCases with
    | map entries =>
      rw [at?_cons, Option.bind_eq_some_iff] at h
      obtain ⟨x, hx, hrest⟩ := h
      have hmem := Table.mem_of_find?_eq_some hx
      intro k hk
      rcases List.mem_cons.1 hk with rfl | hk
      · exact hv.1.2 _ hmem
      · exact ih (eachMap_iff.1 hv.2 _ hmem) hrest k hk
    | other v hmap => cases (at?_of_not_map hmap h).1

end Value

namespace TokenSet

theorem at?_eq_value {keys : List String} (hne : keys ≠ []) (set : TokenSet) :
    at? keys set = (Value.map set).at? keys := by
  cases keys with
  | nil => exact absurd rfl hne
  | cons key rest => rfl

/-! ## Leaves -/

theorem leavesOf_of_not_map {v : Value} (hv : v.isMap = false) (path : String) :
    leavesOf path v = [(path, v)] := by
  cases v with
  | map entries => cases hv
  | bool => rfl
  | int => rfl
  | float => rfl
  | str => rfl

theorem mem_leavesBelow {path : String} {entries : List (String × Value)} {leaf : String × Value} :
    leaf ∈ leavesBelow path entries ↔ ∃ e ∈ entries, leaf ∈ leavesOf (join path e.1) e.2 := by
  induction entries with
  | nil => simp [leavesBelow]
  | cons e rest ih =>
    obtain ⟨key, value⟩ := e
    rw [leavesBelow, List.mem_append, ih]
    simp

theorem mem_leavesOf_of_not_map {v : Value} (hv : v.isMap = false) {path q : String} {w : Value} :
    (q, w) ∈ leavesOf path v ↔
      ∃ keys, q = pathBelow path keys ∧ v.at? keys = some w ∧ w.isMap = false := by
  rw [leavesOf_of_not_map hv, List.mem_singleton, Prod.mk.injEq]
  constructor
  · rintro ⟨rfl, rfl⟩
    exact ⟨[], rfl, Value.at?_nil w, hv⟩
  · rintro ⟨keys, rfl, hat, _⟩
    obtain ⟨rfl, rfl⟩ := Value.at?_of_not_map hv hat
    exact ⟨rfl, rfl⟩

/-- The leaves of a value are what its keys lead to and is no map. -/
theorem mem_leavesOf_iff : ∀ {v : Value}, v.EachMap KeyedHere → ∀ {path q : String} {w : Value},
    (q, w) ∈ leavesOf path v ↔
      ∃ keys, q = pathBelow path keys ∧ v.at? keys = some w ∧ w.isMap = false
  | .map entries, hv, path, q, w => by
    obtain ⟨⟨hordered, _⟩, hbelow⟩ := hv
    rw [eachMap_iff] at hbelow
    have hiff : ∀ e ∈ entries, ((q, w) ∈ leavesOf (join path e.1) e.2 ↔
        ∃ keys, q = pathBelow (join path e.1) keys ∧ e.2.at? keys = some w ∧ w.isMap = false) :=
      fun e he => mem_leavesOf_iff (hbelow e he)
    rw [leavesOf, mem_leavesBelow]
    constructor
    · rintro ⟨⟨key, value⟩, he, hleaf⟩
      obtain ⟨keys, hq, hat, hmap⟩ := (hiff _ he).1 hleaf
      refine ⟨key :: keys, hq, ?_, hmap⟩
      rw [Value.at?_cons, (Table.find?_eq_some_iff hordered).2 he]
      exact hat
    · rintro ⟨keys, hq, hat, hmap⟩
      cases keys with
      | nil =>
        rw [Value.at?_nil] at hat
        rw [← Option.some.inj hat] at hmap
        cases hmap
      | cons key keys =>
        rw [Value.at?_cons, Option.bind_eq_some_iff] at hat
        obtain ⟨value, hfind, hat⟩ := hat
        have he := Table.mem_of_find?_eq_some hfind
        exact ⟨(key, value), he, (hiff _ he).2 ⟨keys, hq, hat, hmap⟩⟩
  | .bool b, _, path, q, w => mem_leavesOf_of_not_map rfl
  | .int n, _, path, q, w => mem_leavesOf_of_not_map rfl
  | .float x, _, path, q, w => mem_leavesOf_of_not_map rfl
  | .str s, _, path, q, w => mem_leavesOf_of_not_map rfl
termination_by v => sizeOf v
decreasing_by
  have := List.sizeOf_lt_of_mem he
  obtain ⟨key, value⟩ := e
  simp only [Prod.mk.sizeOf_spec] at this
  simp only [Value.map.sizeOf_spec]
  omega

/-- **The leaves of a set are what its keys lead to and is no map.** -/
theorem mem_leaves_iff {set : TokenSet} (h : Keyed set) {path : String} {w : Value} :
    (path, w) ∈ leaves set ↔
      ∃ keys, keys ≠ [] ∧ path = pathOf keys ∧ at? keys set = some w ∧ w.isMap = false := by
  have hleaves : leaves set = leavesOf "" (.map set) := rfl
  rw [hleaves, mem_leavesOf_iff h]
  constructor
  · rintro ⟨keys, hpath, hat, hmap⟩
    have hne : keys ≠ [] := by
      rintro rfl
      rw [Value.at?_nil] at hat
      rw [← Option.some.inj hat] at hmap
      cases hmap
    exact ⟨keys, hne, hpath, by rw [at?_eq_value hne]; exact hat, hmap⟩
  · rintro ⟨keys, hne, hpath, hat, hmap⟩
    exact ⟨keys, hpath, by rw [← at?_eq_value hne]; exact hat, hmap⟩

/-! ## Paths of different leaves -/

/-- The keys of a path below another one: those of the other one, if it is not empty, and one
    more. -/
theorem keysOf_join_pathBelow {path key : String} (hkey : IsKey key) {keys : List String}
    (hkeys : ∀ k ∈ keys, IsKey k) :
    keysOf (pathBelow (join path key) keys) =
      (if path = "" then [] else keysOf path) ++ key :: keys := by
  rw [keysOf_pathBelow (join_ne_empty hkey) hkeys]
  split
  · next hempty => rw [join, if_pos hempty, keysOf_key hkey]; rfl
  · next hpath => rw [keysOf_join hpath hkey, List.append_assoc]; rfl

/-- Under different keys there are different paths. -/
theorem eq_key_of_mem_leavesOf {path q key key' : String} {v v' w w' : Value}
    (hkey : IsKey key) (hkey' : IsKey key') (hv : v.EachMap KeyedHere)
    (hv' : v'.EachMap KeyedHere) (h : (q, w) ∈ leavesOf (join path key) v)
    (h' : (q, w') ∈ leavesOf (join path key') v') : key = key' := by
  obtain ⟨keys, rfl, hat, -⟩ := (mem_leavesOf_iff hv).1 h
  obtain ⟨keys', heq, hat', -⟩ := (mem_leavesOf_iff hv').1 h'
  have hsplit := congrArg keysOf heq
  rw [keysOf_join_pathBelow hkey (Value.isKey_of_at? hv hat),
    keysOf_join_pathBelow hkey' (Value.isKey_of_at? hv' hat')] at hsplit
  exact (List.cons.inj (List.append_cancel_left hsplit)).1

mutual

theorem nodup_leavesOf (path : String) : ∀ v : Value, v.EachMap KeyedHere →
    ((leavesOf path v).map (·.1)).Nodup
  | .map entries, h => nodup_leavesBelow path entries h.1 h.2
  | .bool _, _ => List.pairwise_singleton _ _
  | .int _, _ => List.pairwise_singleton _ _
  | .float _, _ => List.pairwise_singleton _ _
  | .str _, _ => List.pairwise_singleton _ _
termination_by structural v => v

theorem nodup_leavesBelow (path : String) : ∀ entries : List (String × Value),
    KeyedHere entries → EachMap KeyedHere entries → ((leavesBelow path entries).map (·.1)).Nodup
  | [], _, _ => List.nodup_nil
  | (key, value) :: rest, ⟨hordered, hkeys⟩, ⟨hvalue, hrest⟩ => by
    have hsmaller := List.pairwise_cons.1 hordered
    have hothers : ∀ e ∈ rest, IsKey e.1 := fun e he => hkeys e (List.mem_cons_of_mem _ he)
    rw [leavesBelow, List.map_append, List.nodup_append]
    refine ⟨nodup_leavesOf (join path key) value hvalue,
      nodup_leavesBelow path rest ⟨hsmaller.2, hothers⟩ hrest, ?_⟩
    rintro q hfirst _ hlater rfl
    obtain ⟨⟨_, w⟩, hw, rfl⟩ := List.mem_map.1 hfirst
    obtain ⟨⟨_, w'⟩, hw', heq⟩ := List.mem_map.1 hlater
    obtain rfl := heq
    obtain ⟨e, he, hbelow⟩ := mem_leavesBelow.1 hw'
    have hsame := eq_key_of_mem_leavesOf (hkeys _ List.mem_cons_self) (hothers e he) hvalue
      (eachMap_iff.1 hrest e he) hw hbelow
    exact absurd (hsame ▸ hsmaller.1 e he) (String.lt_irrefl _)
termination_by structural entries => entries

end

/-- **No two leaves have the same path** if all keys can stand in one. -/
theorem nodup_paths {set : TokenSet} (h : Keyed set) : (paths set).Nodup :=
  nodup_leavesOf "" (.map set) h

/-! ## Paths and keys -/

theorem mem_toList_pathBelow {path : String} {keys : List String} (c : Char)
    (hc : c ∈ path.toList) : c ∈ (pathBelow path keys).toList := by
  induction keys generalizing path with
  | nil => exact hc
  | cons key rest ih =>
    apply ih
    unfold join
    split
    · next h => rw [h] at hc; cases hc
    · simp [String.toList_append, hc]

/-- A path of two keys and more is no key itself. -/
theorem find?_pathOf_eq_none {set : TokenSet} (h : Keyed set) {key : String} (hkey : IsKey key)
    {second : String} {rest : List String} :
    Table.find? (pathOf (key :: second :: rest)) set = none := by
  cases hfind : Table.find? (pathOf (key :: second :: rest)) set with
  | none => rfl
  | some v =>
    refine absurd ?_ (h.isKey hfind).2
    have hjoin : join "" key = key := if_pos rfl
    show '.' ∈ (pathBelow (join (join "" key) second) rest).toList
    rw [hjoin]
    apply mem_toList_pathBelow
    rw [join, if_neg hkey.1]
    simp [String.toList_append]

/-- **Dotted paths follow keys.** -/
theorem get?_pathOf {set : TokenSet} (h : Keyed set) {keys : List String} (hne : keys ≠ [])
    (hkeys : ∀ key ∈ keys, IsKey key) : get? (pathOf keys) set = at? keys set := by
  unfold get?
  cases keys with
  | nil => exact absurd rfl hne
  | cons key rest =>
    have hkey := hkeys key List.mem_cons_self
    cases rest with
    | nil =>
      have hpath : pathOf [key] = key := by
        show join "" key = key
        exact if_pos rfl
      have hat : at? [key] set = Table.find? key set := by
        rw [at?]
        cases Table.find? key set with
        | none => rfl
        | some v => exact Value.at?_nil v
      rw [hpath, keysOf_key hkey, hat]
      cases Table.find? key set <;> rfl
    | cons second rest =>
      rw [find?_pathOf_eq_none h hkey, keysOf_pathOf hne hkeys]

/-- A leaf is what its path addresses. -/
theorem get?_of_mem_leaves {set : TokenSet} (h : Keyed set) {path : String} {w : Value}
    (hleaf : (path, w) ∈ leaves set) : get? path set = some w := by
  obtain ⟨keys, hne, rfl, hat, _⟩ := (mem_leaves_iff h).1 hleaf
  have hkeys : ∀ key ∈ keys, IsKey key := by
    rw [at?_eq_value hne] at hat
    exact Value.isKey_of_at? h hat
  rw [get?_pathOf h hne hkeys, hat]

/-! ## Flattening -/

/-- Puts what a path addresses into a table, if it addresses something. -/
def insertAt (set : TokenSet) (table : Table Value) (path : String) : Table Value :=
  match get? path set with
  | some v => Table.insert path v table
  | none => table

theorem flatten_eq (set : TokenSet) : flatten set = (paths set).foldl (insertAt set) [] := rfl

theorem find?_insertAt (set : TokenSet) (table : Table Value) (first path : String) :
    Table.find? path (insertAt set table first) =
      if path = first then (get? path set).or (Table.find? path table)
      else Table.find? path table := by
  unfold insertAt
  by_cases heq : path = first
  · subst heq
    rw [if_pos rfl]
    cases get? path set with
    | none => rfl
    | some v => exact Table.find?_insert_self path v table
  · rw [if_neg heq]
    cases get? first set with
    | none => rfl
    | some v => exact (Table.find?_insert first path v table).trans (if_neg heq)

/-- Later paths overwrite what earlier ones have put there, with the same value. -/
theorem find?_foldl_insertAt (set : TokenSet) (list : List String) (table : Table Value)
    (path : String) :
    Table.find? path (list.foldl (insertAt set) table) =
      if path ∈ list then (get? path set).or (Table.find? path table)
      else Table.find? path table := by
  induction list generalizing table with
  | nil => rfl
  | cons first rest ih =>
    rw [List.foldl_cons, ih, find?_insertAt]
    by_cases hfirst : path = first
    · subst hfirst
      rw [if_pos rfl, if_pos List.mem_cons_self]
      cases get? path set <;> simp
    · have hmem : path ∈ first :: rest ↔ path ∈ rest := by simp [hfirst]
      simp only [hmem, if_neg hfirst]

/-- The table of leaves holds, under the path of a leaf, what the path addresses. -/
theorem find?_flatten (set : TokenSet) (path : String) :
    Table.find? path (flatten set) = if path ∈ paths set then get? path set else none := by
  rw [flatten_eq, find?_foldl_insertAt]
  simp only [Table.find?, Option.or_none]

theorem mem_paths_iff {set : TokenSet} {path : String} :
    path ∈ paths set ↔ ∃ w, (path, w) ∈ leaves set := by
  simp [paths]

theorem ordered_insertAt {set : TokenSet} {table : Table Value} (h : Table.Ordered table) (path : String) :
    Table.Ordered (insertAt set table path) := by
  unfold insertAt
  split
  · exact Table.ordered_insert path _ h
  · exact h

theorem ordered_flatten (set : TokenSet) : Table.Ordered (flatten set) := by
  have hfold : ∀ (list : List String) (table : Table Value), Table.Ordered table →
      Table.Ordered (list.foldl (insertAt set) table) := by
    intro list
    induction list with
    | nil => exact fun _ h => h
    | cons path rest ih => exact fun table h => ih _ (ordered_insertAt h path)
  exact hfold _ [] List.Pairwise.nil

/-- **The table of leaves holds the leaves**, each under its path. -/
theorem mem_flatten_iff {set : TokenSet} (h : Keyed set) {path : String} {w : Value} :
    (path, w) ∈ flatten set ↔ (path, w) ∈ leaves set := by
  rw [← Table.find?_eq_some_iff (ordered_flatten set), find?_flatten]
  constructor
  · intro hfind
    split at hfind
    · next hpath =>
      obtain ⟨v, hv⟩ := mem_paths_iff.1 hpath
      rw [get?_of_mem_leaves h hv] at hfind
      rwa [← Option.some.inj hfind]
    · cases hfind
  · intro hleaf
    rw [if_pos (mem_paths_iff.2 ⟨w, hleaf⟩), get?_of_mem_leaves h hleaf]

/-- Sets with the same table of leaves have the same leaves. -/
theorem at?_of_flatten_eq {a b : TokenSet} (ha : Keyed a) (hb : Keyed b)
    (h : flatten a = flatten b) {keys : List String} (hne : keys ≠ []) {w : Value}
    (hat : at? keys a = some w) (hmap : w.isMap = false) : at? keys b = some w := by
  have hkeys : ∀ key ∈ keys, IsKey key := by
    rw [at?_eq_value hne] at hat
    exact Value.isKey_of_at? ha hat
  have hleaf : (pathOf keys, w) ∈ leaves a := (mem_leaves_iff ha).2 ⟨keys, hne, rfl, hat, hmap⟩
  have hfind : Table.find? (pathOf keys) (flatten b) = some w := by
    rw [← h, find?_flatten, if_pos (mem_paths_iff.2 ⟨w, hleaf⟩), get?_of_mem_leaves ha hleaf]
  rw [find?_flatten] at hfind
  split at hfind
  · rwa [get?_pathOf hb hne hkeys] at hfind
  · cases hfind

/-! ## Sets are given by their leaves -/

/-- Keys lead from every value without empty maps to a leaf. -/
theorem exists_leaf : ∀ v : Value, v.EachMap (· ≠ []) → ∃ keys w, v.at? keys = some w ∧ w.isMap = false
  | .map entries, h => by
    obtain ⟨hne, hbelow⟩ := h
    cases entries with
    | nil => exact absurd rfl hne
    | cons e rest =>
      obtain ⟨key, value⟩ := e
      obtain ⟨keys, w, hat, hmap⟩ := exists_leaf value hbelow.1
      refine ⟨key :: keys, w, ?_, hmap⟩
      rw [Value.at?_cons, Table.find?, if_pos rfl]
      exact hat
  | .bool b, _ => ⟨[], .bool b, rfl, rfl⟩
  | .int n, _ => ⟨[], .int n, rfl, rfl⟩
  | .float x, _ => ⟨[], .float x, rfl, rfl⟩
  | .str s, _ => ⟨[], .str s, rfl, rfl⟩

/-- Whether two values have the same leaves. -/
def SameLeaves (v v' : Value) : Prop :=
  ∀ keys w, w.isMap = false → (v.at? keys = some w ↔ v'.at? keys = some w)

theorem SameLeaves.symm {v v' : Value} (h : SameLeaves v v') : SameLeaves v' v :=
  fun keys w hw => (h keys w hw).symm

theorem eq_of_leaf {v v' : Value} (hv : v.isMap = false) (h : SameLeaves v v') : v = v' := by
  have := (h [] v hv).1 (Value.at?_nil v)
  rw [Value.at?_nil] at this
  exact (Option.some.inj this).symm

/-- Where one of two such maps has a value, the other one has a value of the same leaves. -/
theorem SameLeaves.child {entries entries' : Table Value}
    (h : SameLeaves (.map entries) (.map entries')) {key : String} {x : Value}
    (hx : Table.find? key entries = some x) (hfilled : x.EachMap (· ≠ [])) :
    ∃ y, Table.find? key entries' = some y ∧ SameLeaves x y := by
  obtain ⟨keys, w, hat, hw⟩ := exists_leaf x hfilled
  have hleft : ∀ keys, (Value.map entries).at? (key :: keys) = x.at? keys := by
    intro keys
    rw [Value.at?_cons, hx, Option.bind_some]
  have hother := (h (key :: keys) w hw).1 (by rw [hleft]; exact hat)
  rw [Value.at?_cons, Option.bind_eq_some_iff] at hother
  obtain ⟨y, hy, _⟩ := hother
  refine ⟨y, hy, ?_⟩
  intro keys w hw
  have hiff := h (key :: keys) w hw
  rwa [hleft, Value.at?_cons, hy, Option.bind_some] at hiff

/-- Entries without empty maps among them are given by their leaves. -/
theorem eq_of_sameLeaves {entries entries' : TokenSet} (h : Keyed entries) (h' : Keyed entries')
    (hfilled : Filled entries) (hfilled' : Filled entries')
    (hsame : SameLeaves (.map entries) (.map entries')) : entries = entries' := by
  apply Table.eq_of_find?_eq h.ordered h'.ordered
  intro key
  cases hx : Table.find? key entries with
  | none =>
    cases hy : Table.find? key entries' with
    | none => rfl
    | some y =>
      obtain ⟨x, hx', _⟩ := hsame.symm.child hy
        (eachMap_iff.1 hfilled' _ (Table.mem_of_find?_eq_some hy))
      rw [hx] at hx'
      cases hx'
  | some x =>
    have hmem := Table.mem_of_find?_eq_some hx
    obtain ⟨y, hy, hchild⟩ := hsame.child hx (eachMap_iff.1 hfilled _ hmem)
    have hmem' := Table.mem_of_find?_eq_some hy
    rw [hy]
    -- Below two maps the argument is repeated, and a leaf has no keys below it.
    cases x using Value.mapCases with
    | map below =>
      cases y using Value.mapCases with
      | map below' =>
        have hbelow := eachMap_iff.1 hfilled _ hmem
        have hbelow' := eachMap_iff.1 hfilled' _ hmem'
        rw [eq_of_sameLeaves (h.below hx) (h'.below hy) hbelow.2 hbelow'.2 hchild]
      | other y hleaf => rw [eq_of_leaf hleaf hchild.symm]
    | other x hleaf => rw [eq_of_leaf hleaf hchild]
termination_by sizeOf entries
decreasing_by
  have := List.sizeOf_lt_of_mem hmem
  simp only [Prod.mk.sizeOf_spec, Value.map.sizeOf_spec] at this
  omega

/-- **A set without empty maps is given by its leaves.** -/
theorem eq_of_flatten_eq {a b : TokenSet} (ha : Keyed a) (hb : Keyed b) (hfilled : Filled a)
    (hfilled' : Filled b) (h : flatten a = flatten b) : a = b := by
  refine eq_of_sameLeaves ha hb hfilled hfilled' ?_
  intro keys w hw
  cases keys with
  | nil =>
    have hno : ∀ set : TokenSet, (Value.map set).at? [] ≠ some w := by
      intro set hat
      rw [Value.at?_nil] at hat
      rw [← Option.some.inj hat] at hw
      cases hw
    exact ⟨fun hat => absurd hat (hno a), fun hat => absurd hat (hno b)⟩
  | cons key keys =>
    have hne : key :: keys ≠ [] := by simp
    rw [← at?_eq_value hne, ← at?_eq_value hne]
    exact ⟨fun hat => at?_of_flatten_eq ha hb h hne hat hw,
      fun hat => at?_of_flatten_eq hb ha h.symm hne hat hw⟩

end TokenSet

end Theming
