set_option autoImplicit false

/-! # Caches

A cache holds results under the data that they were made from. A result is stored once per key. -/

namespace Theming

/-- Results under keys. -/
abbrev Cache (κ α : Type) := List (κ × α)

namespace Cache

variable {κ α : Type} [DecidableEq κ]

/-- The result under a key. -/
def find? (key : κ) : Cache κ α → Option α
  | [] => none
  | (other, result) :: rest => if key = other then some result else find? key rest

/-- Stores a result; one that was there under the same key is replaced. -/
def insert (key : κ) (result : α) (c : Cache κ α) : Cache κ α :=
  (key, result) :: c.filter (fun e => e.1 ≠ key)

/-- Stores a result if the cache is in use. -/
def insertWhen (enabled : Bool) (key : κ) (result : α) (c : Cache κ α) : Cache κ α :=
  if enabled then insert key result c else c

/-- The result under a key if the cache is in use. -/
def findWhen? (enabled : Bool) (key : κ) (c : Cache κ α) : Option α :=
  if enabled then find? key c else none

theorem find?_filter_ne {key other : κ} (h : other ≠ key) (c : Cache κ α) :
    find? other (c.filter (fun e => e.1 ≠ key)) = find? other c := by
  induction c with
  | nil => rfl
  | cons e rest ih =>
    rw [List.filter_cons]
    by_cases he : e.1 = key
    · have hne : ¬ other = e.1 := fun hc => h (hc.trans he)
      rw [if_neg (by simp [he]), ih, find?, if_neg hne]
    · rw [if_pos (by simp [he]), find?, find?, ih]

theorem find?_insert (key other : κ) (result : α) (c : Cache κ α) :
    find? other (insert key result c) = if other = key then some result else find? other c := by
  by_cases h : other = key
  · simp [find?, insert, h]
  · rw [insert, find?, if_neg h, if_neg h, find?_filter_ne h]

/-- Something is found only in a cache that is in use. -/
theorem findWhen?_eq_some_iff {enabled : Bool} {key : κ} {c : Cache κ α} {result : α} :
    findWhen? enabled key c = some result ↔ enabled = true ∧ find? key c = some result := by
  cases enabled <;> simp [findWhen?]

/-- What is found after storing was stored now or was there before. -/
theorem find?_insertWhen_cases {enabled : Bool} {key other : κ} {result found : α} {c : Cache κ α}
    (h : find? other (insertWhen enabled key result c) = some found) :
    (other = key ∧ found = result) ∨ find? other c = some found := by
  unfold insertWhen at h
  split at h
  · rw [find?_insert] at h
    split at h
    · next hkey => exact Or.inl ⟨hkey, (Option.some.inj h).symm⟩
    · exact Or.inr h
  · exact Or.inr h

/-! ## One result per key -/

/-- A cache holds one result per key. -/
def Distinct (c : Cache κ α) : Prop := (c.map (·.1)).Nodup

theorem find?_eq_some_iff {c : Cache κ α} (h : Distinct c) {key : κ} {result : α} :
    find? key c = some result ↔ (key, result) ∈ c := by
  induction c with
  | nil => simp [find?]
  | cons e rest ih =>
    obtain ⟨hfresh, hrest⟩ := List.nodup_cons.1 h
    by_cases hkey : key = e.1
    · subst hkey
      rw [find?, if_pos rfl, Option.some.injEq, List.mem_cons]
      constructor
      · rintro rfl
        exact Or.inl rfl
      · rintro (heq | hmem)
        · exact (congrArg Prod.snd heq).symm
        · exact absurd (List.mem_map_of_mem (f := Prod.fst) hmem) hfresh
    · rw [find?, if_neg hkey, ih hrest, List.mem_cons]
      exact ⟨Or.inr, fun hmem => hmem.resolve_left (fun heq => hkey (congrArg Prod.fst heq))⟩

omit [DecidableEq κ] in
theorem distinct_filter {c : Cache κ α} (h : Distinct c) (p : κ × α → Bool) :
    Distinct (c.filter p) := List.Nodup.sublist (List.filter_sublist.map _) h

theorem distinct_insert {c : Cache κ α} (h : Distinct c) (key : κ) (result : α) :
    Distinct (insert key result c) := by
  refine List.nodup_cons.2 ⟨?_, distinct_filter h _⟩
  intro hmem
  obtain ⟨e, he, heq⟩ := List.mem_map.1 hmem
  have hne := (List.mem_filter.1 he).2
  simp only [ne_eq, decide_eq_true_eq] at hne
  exact hne heq

theorem mem_insert_iff {c : Cache κ α} {key : κ} {result : α} {e : κ × α} :
    e ∈ insert key result c ↔ e = (key, result) ∨ (e ∈ c ∧ e.1 ≠ key) := by
  simp [insert]

end Cache

end Theming
