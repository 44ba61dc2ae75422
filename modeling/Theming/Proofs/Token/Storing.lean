import Theming.Proofs.Token.Merging

set_option autoImplicit false

/-! # Storing at dotted paths

A value is stored at the keys into which its path splits, and maps are made on the way, also out of
what was no map. A path is read in two ways: as a key of the set itself, and along its keys. So what
was stored is read back unless a key of the set is spelled like the whole path (`get?_set_self_iff`); and
a path is not affected when neither its keys nor those of the stored path begin with the other ones
(`storing_apart`). -/

namespace Theming.TokenSet

/-! ## Storing at keys -/

/-- Storing changes one entry of the set itself, the one of the first key. -/
theorem exists_setAt (key : String) (keys : List String) (v : Value) (s : TokenSet) :
    ∃ w, setAt (key :: keys) v s = Table.insert key w s := by
  cases keys with
  | nil => exact ⟨v, rfl⟩
  | cons second rest => exact ⟨_, rfl⟩

theorem at?_setAt_cons (key second : String) (rest keys : List String) (v : Value)
    (s : TokenSet) :
    at? (key :: keys) (setAt (key :: second :: rest) v s) =
      (Value.map (setAt (second :: rest) v (below (Table.find? key s)))).at? keys := by
  rw [setAt, at?_cons, Table.find?_insert_self, Option.bind_some]
  exact List.cons_ne_nil _ _

/-- **Keys lead to what was stored at them.** -/
theorem at?_setAt_self {keys : List String} (hne : keys ≠ []) (v : Value) (s : TokenSet) :
    at? keys (setAt keys v s) = some v := by
  induction keys generalizing s with
  | nil => exact absurd rfl hne
  | cons key keys ih =>
    cases keys with
    | nil =>
      rw [setAt, at?_cons, Table.find?_insert_self]
      exact Value.at?_nil v
    | cons second rest =>
      rw [at?_setAt_cons]
      exact ih (List.cons_ne_nil _ _) _

/-- **Other keys lead to what they led to before**, if neither list begins with the other one. -/
theorem at?_setAt_of_not_prefix {p q : List String} (hpq : ¬ p <+: q) (hqp : ¬ q <+: p) (v : Value)
    (s : TokenSet) : at? q (setAt p v s) = at? q s := by
  induction p generalizing q s with
  | nil => exact absurd List.nil_prefix hpq
  | cons key keys ih =>
    cases q with
    | nil => exact absurd List.nil_prefix hqp
    | cons first others =>
      by_cases hfirst : first = key
      · subst hfirst
        have hkeys : ¬ keys <+: others :=
          fun h => hpq (List.cons_prefix_cons.2 ⟨rfl, h⟩)
        have hothers : ¬ others <+: keys :=
          fun h => hqp (List.cons_prefix_cons.2 ⟨rfl, h⟩)
        cases keys with
        | nil => exact absurd List.nil_prefix hkeys
        | cons second rest =>
          cases others with
          | nil => exact absurd List.nil_prefix hothers
          | cons next more =>
            -- Where there was no map, the new one holds nothing but the way to the stored value.
            rw [at?_setAt_cons, at?_cons, ← at?_below]
            exact ih hkeys hothers _
      · obtain ⟨w, hset⟩ := exists_setAt key keys v s
        rw [hset, at?_cons, at?_cons, Table.find?_insert, if_neg hfirst]

/-- Storing keeps what holds of every map in a set, if putting in one of the keys does, also into
    what was empty. -/
theorem eachMap_setAt {P : Table Value → Prop} {keys : List String} {v : Value} (hv : v.EachMap P)
    (hP : ∀ key ∈ keys, ∀ w t, P t ∨ t = [] → P (Table.insert key w t)) {s : TokenSet}
    (hs : EachMap P s) : EachMap P (setAt keys v s) := by
  induction keys generalizing s with
  | nil => exact hs
  | cons key keys ih =>
    cases keys with
    | nil => exact eachMap_insert hs hv key
    | cons second rest =>
      obtain ⟨hhere, hbelow⟩ := eachMap_below hs key
      have hall := ih (fun k hk => hP k (List.mem_cons_of_mem _ hk)) hbelow
      have hmap : P (setAt (second :: rest) v (below (Table.find? key s))) := by
        obtain ⟨w, hset⟩ := exists_setAt second rest v (below (Table.find? key s))
        rw [hset]
        exact hP second (by simp) w _ hhere
      exact eachMap_insert (v := .map _) hs ⟨hmap, hall⟩ key

/-- **Storing keeps sets in order.** -/
theorem InOrder.setAt {s : TokenSet} {v : Value} (hs : InOrder s) (hv : v.EachMap Table.Ordered)
    (keys : List String) : InOrder (setAt keys v s) := by
  cases keys with
  | nil => exact hs
  | cons key keys =>
    refine ⟨?_, eachMap_setAt hv (fun k _ w t ht => Table.ordered_insert k w ?_) hs.2⟩
    · obtain ⟨w, hset⟩ := exists_setAt key keys v s
      rw [hset]
      exact Table.ordered_insert key w hs.ordered
    · rcases ht with ht | rfl
      · exact ht
      · exact List.Pairwise.nil

/-! ## Reading back -/

/-- A path is stored under its first key, which has no points. -/
theorem exists_set (path : String) (v : Value) (s : TokenSet) :
    ∃ key w, '.' ∉ key.toList ∧ [key] <+: keysOf path ∧ set path v s = Table.insert key w s := by
  obtain ⟨key, keys, hkeys⟩ := List.exists_cons_of_ne_nil (keysOf_ne_nil path)
  obtain ⟨w, hset⟩ := exists_setAt key keys v s
  have hprefix : [key] <+: keysOf path := ⟨keys, hkeys.symm⟩
  have hmem : key ∈ keysOf path := hprefix.subset List.mem_cons_self
  exact ⟨key, w, not_mem_of_mem_keysOf hmem, hprefix, by rw [TokenSet.set, hkeys, hset]⟩

/-- The entry whose own key is the path is replaced only by a path without points. -/
theorem find?_set_self (path : String) (v : Value) (s : TokenSet) :
    Table.find? path (set path v s) =
      if '.' ∈ path.toList then Table.find? path s else some v := by
  split
  · next hpoint =>
    obtain ⟨key, w, hkey, -, hset⟩ := exists_set path v s
    rw [hset, Table.find?_insert, if_neg]
    rintro rfl
    exact hkey hpoint
  · next hpoint =>
    rw [TokenSet.set, keysOf_of_not_mem hpoint]
    exact Table.find?_insert_self path v s

/-- **What is read where something was stored.** The keys of the path lead to the stored value. The
    path itself is read as it was before if it has points and is a key of the set, so the stored
    value is read back exactly if there is no such key with another value. -/
theorem get?_set_self_iff (path : String) (v : Value) (s : TokenSet) :
    at? (keysOf path) (set path v s) = some v ∧
      get? path (set path v s) =
        some (if '.' ∈ path.toList then (Table.find? path s).getD v else v) ∧
      (get? path (set path v s) = some v ↔
        ('.' ∈ path.toList → ∀ w, Table.find? path s = some w → w = v)) := by
  have hkeys : at? (keysOf path) (set path v s) = some v :=
    at?_setAt_self (keysOf_ne_nil path) v s
  have hget : get? path (set path v s) =
      some (if '.' ∈ path.toList then (Table.find? path s).getD v else v) := by
    rw [get?, find?_set_self, hkeys]
    by_cases hpoint : '.' ∈ path.toList
    · rw [if_pos hpoint, if_pos hpoint]
      cases Table.find? path s <;> rfl
    · rw [if_neg hpoint, if_neg hpoint]
  refine ⟨hkeys, hget, ?_⟩
  rw [hget, Option.some_inj]
  by_cases hpoint : '.' ∈ path.toList
  · rw [if_pos hpoint]
    cases Table.find? path s with
    | none => simp
    | some w => simp [hpoint]
  · simp [hpoint]

/-- The key `a.b` of a set hides what is stored at the path `a.b`. -/
theorem get?_set_self_hidden :
    read? "\x7b\"a.b\": 1\x7d" = some [("a.b", .int 1)] ∧
      get? "a.b" (set "a.b" (.int 2) [("a.b", .int 1)]) ≠ some (.int 2) := by
  decide +kernel

/-! ## Paths that are not affected -/

/-- Whether the keys of neither path begin with those of the other one. -/
def Apart (p q : String) : Prop := ¬ keysOf p <+: keysOf q ∧ ¬ keysOf q <+: keysOf p

instance : DecidableRel Apart := fun p q =>
  inferInstanceAs (Decidable (¬ keysOf p <+: keysOf q ∧ ¬ keysOf q <+: keysOf p))

theorem get?_set_of_apart {p q : String} (h : Apart p q) (v : Value) (s : TokenSet) :
    get? q (set p v s) = get? q s := by
  have hfind : Table.find? q (set p v s) = Table.find? q s := by
    obtain ⟨key, w, hkey, hprefix, hset⟩ := exists_set p v s
    rw [hset, Table.find?_insert, if_neg]
    -- A path without points has one key, and the paths would not be apart.
    rintro rfl
    apply h.2
    rw [keysOf_of_not_mem hkey]
    exact hprefix
  rw [get?, get?, hfind, TokenSet.set, at?_setAt_of_not_prefix h.1 h.2]

/-- **Storing leaves the paths apart alone**, one value as well as a row of values, whatever keys the
    set has and whatever had to become a map on the way. -/
theorem storing_apart {q : String} :
    (∀ p v s, Apart p q → get? q (set p v s) = get? q s) ∧
      ∀ (pairs : List (String × Value)) s, (∀ e ∈ pairs, Apart e.1 q) →
        get? q (pairs.foldl (fun s e => set e.1 e.2 s) s) = get? q s := by
  refine ⟨fun p v s h => get?_set_of_apart h v s, fun pairs => ?_⟩
  induction pairs with
  | nil => exact fun s _ => rfl
  | cons e rest ih =>
    intro s h
    obtain ⟨hfirst, hrest⟩ := List.forall_mem_cons.1 h
    rw [List.foldl_cons, ih _ hrest, get?_set_of_apart hfirst]

/-- Values stored below a leaf, beside a key with a point and a path with an empty key. -/
theorem storing_apart_flat :
    let s : TokenSet := [("a", .int 1), ("a.c", .int 2)]
    Apart "a.b.d" "a.c" ∧ Apart "a..c" "a.c" ∧
      get? "a.c" (set "a.b.d" (.int 3) s) = get? "a.c" s ∧
      get? "a.c" (set "a..c" (.int 4) (set "a.b.d" (.int 3) s)) =
        get? "a.c" s := by
  intro s
  have hbelow : Apart "a.b.d" "a.c" := by decide
  have hempty : Apart "a..c" "a.c" := by decide
  obtain ⟨hone, hrow⟩ := @storing_apart "a.c"
  exact ⟨hbelow, hempty, hone "a.b.d" (.int 3) s hbelow,
    hrow [("a.b.d", .int 3), ("a..c", .int 4)] s (by simp [hbelow, hempty])⟩

end Theming.TokenSet
