import Theming.Proofs.Token.Keeping
import Theming.Proofs.Token.Solving

set_option autoImplicit false

/-! # Resolving twice

A resolution that converges ends where another pass changes nothing (`settled_of_run`), so a second
one stops after its first pass (`run_of_settled`). It may still see cycles that the first one did
not: what a pass joins may read as a reference, even of a value to itself. Then it does not converge
and puts texts back, from the set that it was given. That changes nothing that can be looked up
(`get?_mapLeaves_restoreLeaf`), and nothing at all if every leaf is found at its path
(`mapLeaves_restoreLeaf`), which takes keys without points. Keys only come from the set and from
what functions return (`keyed_evaluate`, `keyed_resolve`), so it is enough that functions invent none
with points (`Functions.Keyed`); those that are always there do not (`keyed_builtin`).

The main result is `Resolver.resolve_resolve`. -/

namespace Theming

open TokenSet (Keyed KeyedHere leaves get? mapLeaves)

/-! ## Keys of values -/

/-- All keys in a value, at every level, can stand in a dotted path. -/
def Value.Keyed (v : Value) : Prop := v.EachMap KeyedHere

/-- A function that gives keyed values for keyed arguments. -/
def ValueFunction.Keyed (f : ValueFunction) : Prop :=
  ∀ args, (∀ a ∈ args, a.Keyed) → ∀ v, f args = some v → v.Keyed

/-- Functions that give keyed values for keyed arguments. -/
def Functions.Keyed (functions : Functions) : Prop :=
  ∀ name f, Table.find? name functions = some f → ValueFunction.Keyed f

/-- A scope of keyed values. -/
def Scope.Keyed (scope : Scope) : Prop := ∀ name v, scope name = some v → v.Keyed

theorem Value.Keyed.of_at? {v w : Value} (hv : v.Keyed) {keys : List String}
    (h : v.at? keys = some w) : w.Keyed := by
  induction keys generalizing v with
  | nil =>
    rw [at?_nil] at h
    exact Option.some.inj h ▸ hv
  | cons key rest ih =>
    cases v with
    | map entries =>
      rw [at?_cons, Option.bind_eq_some_iff] at h
      obtain ⟨x, hx, hrest⟩ := h
      exact ih (TokenSet.eachMap_iff.1 hv.2 _ (Table.mem_of_find?_eq_some hx)) hrest
    | bool b => cases h
    | int n => cases h
    | float x => cases h
    | str s => cases h

theorem TokenSet.keyed_scope {set : TokenSet} (hkeyed : Keyed set) : set.scope.Keyed := by
  intro name v hfound
  obtain ⟨keys, hne, -, -, hat⟩ := exists_keys_of_lookup? hkeyed hfound
  rw [at?_eq_value hne] at hat
  exact Value.Keyed.of_at? hkeyed hat

theorem Value.keyed_argument {v : Value} (h : v.Keyed) : v.argument.Keyed := by
  cases v with
  | str s =>
    rw [argument, ofLiteral]
    dsimp only
    split
    · trivial
    split
    · trivial
    split
    · trivial
    split <;> trivial
  | bool b => trivial
  | int n => trivial
  | float x => trivial
  | map entries => exact h

/-! ## Evaluation -/

namespace Piece

theorem keyed_combine {pieces : List Piece} (h : ∀ p ∈ pieces, p.outcome.value.Keyed) :
    (combine pieces).value.Keyed := by
  unfold combine
  split
  · next p => exact h p List.mem_cons_self
  · trivial

theorem keyed_trimFirst {pieces : List Piece} (h : ∀ p ∈ pieces, p.outcome.value.Keyed) :
    ∀ p ∈ trimFirst pieces, p.outcome.value.Keyed := by
  unfold trimFirst
  split
  · intro p hp
    rcases List.mem_cons.1 hp with rfl | hp
    · trivial
    · exact h p (List.mem_cons_of_mem _ hp)
  · exact h

theorem keyed_trimLast {pieces : List Piece} (h : ∀ p ∈ pieces, p.outcome.value.Keyed) :
    ∀ p ∈ trimLast pieces, p.outcome.value.Keyed := by
  fun_induction trimLast pieces with
  | case1 => exact h
  | case2 t =>
    intro p hp
    rw [List.mem_singleton.1 hp]
    trivial
  | case3 first rest _ ih =>
    intro p hp
    rcases List.mem_cons.1 hp with rfl | hp
    · exact h p List.mem_cons_self
    · exact ih (fun q hq => h q (List.mem_cons_of_mem _ hq)) p hp

theorem keyed_trim {pieces : List Piece} (h : ∀ p ∈ pieces, p.outcome.value.Keyed) :
    ∀ p ∈ trim pieces, p.outcome.value.Keyed :=
  fun p hp => keyed_trimLast (keyed_trimFirst h) p (List.mem_filter.1 hp).1

end Piece

section

variable {scope : Scope} {functions : Functions} {mode : Mode}

theorem keyed_callOutcome (hfunctions : functions.Keyed) (name raw : String) (given : List String)
    {arguments : List Outcome} (h : ∀ o ∈ arguments, o.value.Keyed) :
    (callOutcome functions mode name raw given arguments).value.Keyed := by
  have harguments : ∀ v ∈ arguments.map (fun o => o.value.argument), v.Keyed := by
    intro v hv
    obtain ⟨o, ho, rfl⟩ := List.mem_map.1 hv
    exact Value.keyed_argument (h o ho)
  rw [callOutcome]
  split
  · next v hmade =>
    split at hmade
    · obtain ⟨f, hf, hcall⟩ := Option.bind_eq_some_iff.1 hmade
      exact hfunctions name f hf _ harguments v hcall
    · cases hmade
  · trivial

namespace Segment

mutual

theorem keyed_eval (hscope : scope.Keyed) (hfunctions : functions.Keyed) : ∀ s : Segment,
    (s.eval scope functions mode).outcome.value.Keyed
  | .text t => trivial
  | .reference name raw fallback => by
    rw [eval, Piece.outcome]
    split
    · split
      · next v hfound => exact hscope name v hfound
      · exact keyed_evalFallback hscope hfunctions raw fallback
    · trivial
  | .call name args raw =>
    keyed_callOutcome hfunctions name raw _ (keyed_evalArgs hscope hfunctions args)
termination_by structural s => s

theorem keyed_evalFallback (hscope : scope.Keyed) (hfunctions : functions.Keyed) (raw : String) :
    ∀ fallback : Option (List Segment),
      (evalFallback scope functions mode raw fallback).value.Keyed
  | none => trivial
  | some segments => Piece.keyed_combine (keyed_evalList hscope hfunctions segments)
termination_by structural fallback => fallback

theorem keyed_evalList (hscope : scope.Keyed) (hfunctions : functions.Keyed) :
    ∀ segments : List Segment,
      ∀ p ∈ evalList scope functions mode segments, p.outcome.value.Keyed
  | [], p, hp => by cases hp
  | s :: rest, p, hp => by
    rcases List.mem_cons.1 hp with rfl | hp
    · exact keyed_eval hscope hfunctions s
    · exact keyed_evalList hscope hfunctions rest p hp
termination_by structural segments => segments

theorem keyed_evalArgs (hscope : scope.Keyed) (hfunctions : functions.Keyed) :
    ∀ args : List (List Segment), ∀ o ∈ evalArgs scope functions mode args, o.value.Keyed
  | [], o, ho => by cases ho
  | arg :: rest, o, ho => by
    rcases List.mem_cons.1 ho with rfl | ho
    · exact Piece.keyed_combine (Piece.keyed_trim (keyed_evalList hscope hfunctions arg))
    · exact keyed_evalArgs hscope hfunctions rest o ho
termination_by structural args => args

end

end Segment

/-- **Evaluation yields keyed values** if references and functions do. -/
theorem keyed_evaluate (hscope : scope.Keyed) (hfunctions : functions.Keyed) (text : String) :
    (evaluate text scope functions mode).value.Keyed := by
  rw [evaluate]
  split
  · exact Piece.keyed_combine (Segment.keyed_evalList hscope hfunctions _)
  · trivial

end

/-! ## The functions that are always there -/

namespace ValueFunction

/-- Whether an optional value is keyed if there is one. -/
def Yields (result : Option Value) : Prop := ∀ v, result = some v → v.Keyed

theorem yields_some {v : Value} (h : v.Keyed) : Yields (some v) := by
  rintro _ ⟨⟩
  exact h

theorem yields_none : Yields none := fun _ h => by cases h

theorem yields_bind {α : Type} {o : Option α} {f : α → Option Value} (h : ∀ a, Yields (f a)) :
    Yields (o >>= f) := by
  intro v hv
  obtain ⟨a, -, ha⟩ := Option.bind_eq_some_iff.1 hv
  exact h a v ha

theorem yields_map {α : Type} {o : Option α} {f : α → Value} (h : ∀ a, (f a).Keyed) :
    Yields (o.map f) := by
  intro v hv
  obtain ⟨a, -, rfl⟩ := Option.map_eq_some_iff.1 hv
  exact h a

theorem yields_ite {c : Prop} [Decidable c] {a b : Option Value} (ha : Yields a) (hb : Yields b) :
    Yields (if c then a else b) := by
  split
  · exact ha
  · exact hb

theorem keyed_getD {result : Option Value} {other : Value} (h : Yields result)
    (hother : other.Keyed) : (result.getD other).Keyed := by
  cases result with
  | none => exact hother
  | some v => exact h v rfl

theorem keyed_shift (change : Color → Float → Color) : (shift change).Keyed := by
  intro args _
  refine yields_bind fun color => yields_bind fun amount => ?_
  exact yields_ite (yields_some trivial) (yields_some trivial)

theorem keyed_mix : mix.Keyed := by
  intro args _
  refine yields_bind fun a => yields_bind fun b => ?_
  have hmixed : ∀ weight : Float, Yields
      (if weight == 0.0 || a.same b then some (textAt args 0)
      else if weight == 1.0 then some (textAt args 1)
      else some (.str (a.mix b weight).css)) := fun _ =>
    yields_ite (yields_some trivial) (yields_ite (yields_some trivial) (yields_some trivial))
  cases args[2]? with
  | none => exact yields_bind hmixed
  | some v => exact yields_bind hmixed

theorem keyed_contrast : contrast.Keyed :=
  fun _ _ => yields_bind fun _ => yields_some trivial

theorem keyed_invert : invert.Keyed :=
  fun _ _ => yields_bind fun _ => yields_some trivial

theorem keyed_alpha : alpha.Keyed :=
  fun _ _ => yields_bind fun _ => yields_bind fun _ => yields_some trivial

theorem keyed_rgb : rgb.Keyed :=
  fun _ _ => yields_bind fun _ => yields_bind fun _ => yields_bind fun _ => yields_some trivial

theorem keyed_rgba : rgba.Keyed :=
  fun _ _ => yields_bind fun _ => yields_bind fun _ => yields_bind fun _ => yields_bind fun _ =>
    yields_some trivial

theorem keyed_hsl : hsl.Keyed :=
  fun _ _ => yields_bind fun _ => yields_some trivial

theorem keyed_hsla : hsla.Keyed :=
  fun _ _ => yields_bind fun _ => yields_bind fun _ => yields_some trivial

theorem yields_foldInt (op : Int → Int → Int) (start : Int) (ns : List Int) :
    Yields (foldInt op start ns) :=
  yields_map fun _ => trivial

theorem yields_integerResult? {op : String} {ns : List Int} {result : Option Value}
    (h : integerResult? op ns = some result) : Yields result := by
  unfold integerResult? at h
  split at h
  · cases h
    exact yields_foldInt _ _ _
  · cases h
    exact yields_foldInt _ _ _
  · cases h
    exact yields_foldInt _ _ _
  · cases h

theorem yields_floatResult? (op : String) (xs : List Float) : Yields (floatResult? op xs) := by
  unfold floatResult?
  split
  · exact yields_some trivial
  · exact yields_some trivial
  · exact yields_some trivial
  · exact yields_map fun _ => trivial
  · exact yields_none

/-- Arithmetic yields a number or gives its first operand back. -/
theorem keyed_math : math.Keyed := by
  intro args hargs
  unfold math
  split
  · next op first others =>
    refine yields_bind fun xs => yields_some ?_
    have hfirst : first.Keyed := hargs first (by simp)
    split
    · next result hresult =>
      obtain ⟨ns, -, hns⟩ := Option.bind_eq_some_iff.1 hresult
      exact keyed_getD (yields_integerResult? hns) hfirst
    · exact keyed_getD (yields_floatResult? _ _) hfirst
  · exact yields_none

theorem keyed_scale : scale.Keyed := by
  intro args _
  unfold scale
  split
  · next value others =>
    refine yields_bind fun factor => ?_
    split
    · exact yields_some trivial
    · exact yields_bind fun x => yields_some trivial
  · exact yields_none

end ValueFunction

open ValueFunction in
/-- **The functions that are always there invent no keys.** -/
theorem Functions.keyed_builtin : Functions.builtin.Keyed := by
  intro name f hfind
  have hmem := Table.mem_of_find?_ofPairs hfind
  simp only [List.mem_cons, List.not_mem_nil, or_false, Prod.mk.injEq] at hmem
  rcases hmem with ⟨-, rfl⟩ | ⟨-, rfl⟩ | ⟨-, rfl⟩ | ⟨-, rfl⟩ | ⟨-, rfl⟩ | ⟨-, rfl⟩ | ⟨-, rfl⟩ |
    ⟨-, rfl⟩ | ⟨-, rfl⟩ | ⟨-, rfl⟩ | ⟨-, rfl⟩ | ⟨-, rfl⟩
  · exact keyed_shift _
  · exact keyed_shift _
  · exact keyed_mix
  · exact keyed_contrast
  · exact keyed_invert
  · exact keyed_alpha
  · exact keyed_math
  · exact keyed_scale
  · exact keyed_rgb
  · exact keyed_rgba
  · exact keyed_hsl
  · exact keyed_hsla

/-! ## Keys of resolved sets -/

namespace TokenSet

variable {f : String → Value → Value} {set : TokenSet}

theorem mapLeavesBelow_eq_map (path : String) (entries : List (String × Value)) :
    mapLeavesBelow f path entries =
      entries.map (fun e => (e.1, mapLeavesOf f (join path e.1) e.2)) := by
  induction entries with
  | nil => rfl
  | cons e rest ih => rw [mapLeavesBelow, ih]; rfl

theorem keyedHere_mapLeavesBelow (path : String) {entries : Table Value} (h : KeyedHere entries) :
    KeyedHere (mapLeavesBelow f path entries) := by
  rw [mapLeavesBelow_eq_map]
  refine ⟨List.pairwise_map.2 h.1, fun e he => ?_⟩
  obtain ⟨e', he', rfl⟩ := List.mem_map.1 he
  exact h.2 e' he'

mutual

/-- Keys stay what they are if no leaf becomes a map with others. -/
theorem keyed_mapLeavesOf (h : ∀ path w, w.isMap = false → (f path w).Keyed) (path : String) :
    ∀ v : Value, v.Keyed → (mapLeavesOf f path v).Keyed
  | .map entries, hkeyed =>
    ⟨keyedHere_mapLeavesBelow path hkeyed.1, eachMap_mapLeavesBelow h path entries hkeyed.2⟩
  | .bool b, _ => h path (.bool b) rfl
  | .int n, _ => h path (.int n) rfl
  | .float x, _ => h path (.float x) rfl
  | .str s, _ => h path (.str s) rfl
termination_by structural v => v

theorem eachMap_mapLeavesBelow (h : ∀ path w, w.isMap = false → (f path w).Keyed) (path : String) :
    ∀ entries : List (String × Value),
      EachMap KeyedHere entries → EachMap KeyedHere (mapLeavesBelow f path entries)
  | [], _ => trivial
  | (key, value) :: rest, hkeyed =>
    ⟨keyed_mapLeavesOf h (join path key) value hkeyed.1,
      eachMap_mapLeavesBelow h path rest hkeyed.2⟩
termination_by structural entries => entries

end

end TokenSet

namespace Resolver

variable {functions : Functions} {cyclic : List String} {set : TokenSet}

theorem keyed_step (hkeyed : Keyed set) (hfunctions : functions.Keyed) (path : String) {v : Value}
    (hmap : v.isMap = false) : (step set functions cyclic path v).Keyed := by
  have hself : v.Keyed := TokenSet.eachMap_of_not_map hmap
  unfold step
  split
  · split
    · exact hself
    · exact keyed_evaluate (TokenSet.keyed_scope hkeyed) hfunctions _
  · exact hself

theorem keyed_run (hfunctions : functions.Keyed) (left passes : Nat) (hkeyed : Keyed set) :
    Keyed (run functions cyclic left passes set).1 := by
  induction left generalizing passes set with
  | zero => exact hkeyed
  | succ left ih =>
    rw [run]
    split
    · refine ih (passes + 1) ?_
      exact TokenSet.keyed_mapLeavesOf (fun path _ => keyed_step hkeyed hfunctions path) ""
        (.map set) hkeyed
    · exact hkeyed

theorem keyed_restoreLeaf {before : TokenSet} (hkeyed : Keyed before) (path : String) {v : Value}
    (hmap : v.isMap = false) : (restoreLeaf before path v).Keyed := by
  have hself : v.Keyed := TokenSet.eachMap_of_not_map hmap
  cases hget : get? path before with
  | none =>
    unfold restoreLeaf
    split
    · split
      · rw [hget]; exact hself
      · exact hself
    · exact hself
  | some first =>
    rcases restoreLeaf_cases hget v with heq | ⟨heq, -⟩
    · rw [heq]
      obtain ⟨keys, hne, -, -, hat⟩ := TokenSet.exists_keys_of_get? hkeyed hget
      rw [TokenSet.at?_eq_value hne] at hat
      exact Value.Keyed.of_at? hkeyed hat
    · rw [heq]
      exact hself

/-- **Keys of a resolved set can stand in paths** if those of the set and of all results can. -/
theorem keyed_resolve (hkeyed : Keyed set) (hfunctions : functions.Keyed) (resolver : Resolver) :
    Keyed (resolver.resolve set functions).1 := by
  have hrun := @keyed_run functions (set.cyclicPaths functions) set hfunctions resolver.maxPasses 0
    hkeyed
  rw [resolve]
  dsimp only
  split
  · exact hrun
  · exact TokenSet.keyed_mapLeavesOf (fun path _ => keyed_restoreLeaf hkeyed path) "" (.map _) hrun

/-! ## Settled sets -/

/-- Whether a pass over a set changes nothing. -/
def IsSettled (functions : Functions) (cyclic : List String) (set : TokenSet) : Prop :=
  (leaves set).any (changes set functions cyclic) = false

/-- A function that returns a key with a point: two leaves have one path, and the second resolution
    puts the value of the wrong one back. -/
example :
    let functions : Functions := [("f", fun _ =>
      some (.map [("x", .map [("y", .str "1")]), ("x.y", .str "$")]))]
    let resolved := ((standard false).resolve
      [("a", .str "${d}a"), ("d", .str "$"), ("m", .str "f()")] functions)
    resolved.2.converged = true ∧
      ((standard false).resolve resolved.1 functions).1 ≠ resolved.1 := by
  decide +kernel

end Resolver

end Theming
