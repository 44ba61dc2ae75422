set_option autoImplicit false

/-! # Key-ordered tables

A table maps names to values and lists them in the order of the names. It is a list of pairs with
strictly ascending keys; names are compared by their code points. `insert` and `erase` keep the
order, and looking up after them is described by `find?_insert` and `find?_erase_of_ne`. -/

namespace Theming

/-- Names with values, in ascending order of the names. -/
abbrev Table (α : Type) := List (String × α)

namespace Table

variable {α β : Type}

/-- The value stored under a name. -/
def find? (name : String) : Table α → Option α
  | [] => none
  | (key, value) :: rest => if name = key then some value else find? name rest

/-- Whether something is stored under a name. -/
def has (name : String) (t : Table α) : Bool := (find? name t).isSome

/-- Stores a value under a name, in the place that the order gives it. -/
def insert (name : String) (value : α) : Table α → Table α
  | [] => [(name, value)]
  | (key, old) :: rest =>
    if name = key then (name, value) :: rest
    else if name < key then (name, value) :: (key, old) :: rest
    else (key, old) :: insert name value rest

/-- Forgets what is stored under a name. -/
def erase (name : String) : Table α → Table α
  | [] => []
  | (key, value) :: rest => if name = key then rest else (key, value) :: erase name rest

/-- The table of the given pairs; a later pair replaces an earlier one of the same name. -/
def ofPairs (pairs : List (String × α)) : Table α :=
  pairs.foldl (fun t (name, value) => insert name value t) []

/-- The names in a table. -/
def names (t : Table α) : List String := t.map (·.1)

/-- The table with every value changed. -/
def mapValues (f : α → β) (t : Table α) : Table β := t.map (fun (name, value) => (name, f value))

/-- The names of a table ascend strictly. -/
def Ordered (t : Table α) : Prop := t.Pairwise (fun a b => a.1 < b.1)

/-! ## Looking up -/

theorem find?_isSome_iff {name : String} {t : Table α} :
    (find? name t).isSome ↔ name ∈ names t := by
  induction t with
  | nil => simp [find?, names]
  | cons entry rest ih =>
    obtain ⟨key, value⟩ := entry
    rw [find?, names, List.map_cons, List.mem_cons]
    split
    · next heq => simp [heq]
    · next hne => rw [ih, or_iff_right hne, names]

/-! ## Looking up after a change -/

theorem find?_insert (name other : String) (value : α) (t : Table α) :
    find? other (insert name value t) = if other = name then some value else find? other t := by
  induction t with
  | nil => simp [insert, find?]
  | cons entry rest ih =>
    obtain ⟨key, old⟩ := entry
    by_cases hk : name = key
    · subst hk
      by_cases ho : other = name <;> simp [insert, find?, ho]
    · by_cases hl : name < key
      · by_cases ho : other = name <;> simp [insert, find?, hk, hl, ho]
      · by_cases ho : other = key
        · have : ¬ other = name := fun h => hk (h ▸ ho)
          simp [insert, find?, hk, hl, ho, Ne.symm hk]
        · simp [insert, find?, hk, hl, ho, ih]

theorem find?_insert_self (name : String) (value : α) (t : Table α) :
    find? name (insert name value t) = some value := by simp [find?_insert]

theorem has_insert (name other : String) (value : α) (t : Table α) :
    has other (insert name value t) = (other = name || has other t) := by
  unfold has
  rw [find?_insert]
  by_cases h : other = name <;> simp [h]

theorem mem_names_insert_iff {name other : String} {value : α} {t : Table α} :
    other ∈ names (insert name value t) ↔ other = name ∨ other ∈ names t := by
  rw [← find?_isSome_iff, ← find?_isSome_iff, find?_insert]
  split
  · next heq => simp [heq]
  · next hne => simp [hne]

theorem mem_names_ofPairs_iff {name : String} (pairs : List (String × α)) :
    name ∈ names (ofPairs pairs) ↔ name ∈ pairs.map (·.1) := by
  have hfold : ∀ t : Table α,
      name ∈ names (pairs.foldl (fun t (name, value) => insert name value t) t) ↔
        name ∈ names t ∨ name ∈ pairs.map (·.1) := by
    induction pairs with
    | nil => simp
    | cons p rest ih =>
      intro t
      rw [List.foldl_cons, ih, mem_names_insert_iff, List.map_cons, List.mem_cons, or_assoc,
        or_left_comm]
  rw [ofPairs, hfold]
  simp [names]

/-- What a table of pairs holds was among the pairs. -/
theorem mem_of_find?_ofPairs {name : String} {value : α} {pairs : List (String × α)}
    (h : find? name (ofPairs pairs) = some value) : (name, value) ∈ pairs := by
  suffices hfold : ∀ t : Table α,
      find? name (pairs.foldl (fun t (name, value) => insert name value t) t) = some value →
      (name, value) ∈ pairs ∨ find? name t = some value by
    rcases hfold [] h with hmem | hempty
    · exact hmem
    · cases hempty
  clear h
  induction pairs with
  | nil => exact fun t h => Or.inr h
  | cons p rest ih =>
    intro t h
    rcases ih _ h with hmem | hfound
    · exact Or.inl (List.mem_cons_of_mem p hmem)
    · rw [find?_insert] at hfound
      split at hfound
      · next heq =>
        cases hfound
        exact Or.inl (List.mem_cons.2 (Or.inl (by rw [heq])))
      · exact Or.inr hfound

theorem find?_erase_of_ne {name other : String} (h : other ≠ name) (t : Table α) :
    find? other (erase name t) = find? other t := by
  induction t with
  | nil => rfl
  | cons entry rest ih =>
    obtain ⟨key, value⟩ := entry
    rw [erase]
    split
    · next hkey => rw [find?, if_neg (hkey ▸ h)]
    · rw [find?, find?, ih]

/-! ## Order -/

theorem mem_insert {name : String} {value : α} {t : Table α} {entry : String × α}
    (h : entry ∈ insert name value t) : entry = (name, value) ∨ entry ∈ t := by
  induction t with
  | nil => exact Or.inl (List.mem_singleton.1 h)
  | cons head rest ih =>
    obtain ⟨key, old⟩ := head
    rw [insert] at h
    split at h
    · exact (List.mem_cons.1 h).imp_right (List.mem_cons_of_mem _)
    · split at h
      · exact List.mem_cons.1 h
      · rcases List.mem_cons.1 h with rfl | hrest
        · exact Or.inr List.mem_cons_self
        · exact (ih hrest).imp_right (List.mem_cons_of_mem _)

theorem insert_ne_nil (name : String) (value : α) (t : Table α) : insert name value t ≠ [] := by
  cases t with
  | nil => simp [insert]
  | cons head rest =>
    rw [insert]
    split
    · simp
    · split <;> simp

theorem ordered_insert {t : Table α} (name : String) (value : α) (h : Ordered t) :
    Ordered (insert name value t) := by
  induction t with
  | nil => simp [insert, Ordered]
  | cons head rest ih =>
    obtain ⟨key, old⟩ := head
    have hhead : ∀ e ∈ rest, key < e.1 := (List.pairwise_cons.1 h).1
    have hrest : Ordered rest := (List.pairwise_cons.1 h).2
    by_cases hk : name = key
    · subst hk
      simp only [insert, ↓reduceIte]
      exact List.pairwise_cons.2 ⟨hhead, hrest⟩
    · by_cases hl : name < key
      · simp only [insert, hk, hl, ↓reduceIte]
        refine List.pairwise_cons.2 ⟨?_, h⟩
        intro e he
        rcases List.mem_cons.1 he with rfl | he
        · exact hl
        · exact String.lt_trans hl (hhead e he)
      · simp only [insert, hk, hl, ↓reduceIte]
        refine List.pairwise_cons.2 ⟨?_, ih hrest⟩
        intro e he
        rcases mem_insert he with rfl | he
        · have hle : key ≤ name := String.not_lt.1 hl
          have : key ≠ name := Ne.symm hk
          exact Std.lt_of_le_of_ne hle this
        · exact hhead e he

theorem ordered_ofPairs (pairs : List (String × α)) : Ordered (ofPairs pairs) := by
  suffices h : ∀ t : Table α, Ordered t →
      Ordered (pairs.foldl (fun t (name, value) => insert name value t) t) from
    h [] List.Pairwise.nil
  induction pairs with
  | nil => intro t h; simpa using h
  | cons p rest ih => intro t h; exact ih _ (ordered_insert p.1 p.2 h)

theorem find?_eq_none_of_lt {name : String} {t : Table α} (h : ∀ entry ∈ t, name < entry.1) :
    find? name t = none := by
  rw [← Option.not_isSome_iff_eq_none, find?_isSome_iff, names, List.mem_map]
  rintro ⟨entry, hmem, rfl⟩
  exact String.lt_irrefl _ (h entry hmem)

end Table

end Theming
