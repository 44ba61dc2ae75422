import Theming.Token.Evaluation

set_option autoImplicit false

/-! # What evaluation looks up

References are looked up while an expression is evaluated: one in a fallback only when the reference
in front of it was not found, and none at all where references keep their spelling. `lookups` lists
these names in order. They are among the names that the expression refers to
(`lookups_sublist_names`), and the outcome depends on nothing else in scope (`eval_of_lookups`).

The main result is `evaluate_reads_declared`. -/

namespace Theming

namespace Segment

/-! ## Names that are looked up -/

mutual

/-- The names that the evaluation of a segment looks up, in order. -/
def lookups (scope : Scope) (mode : Mode) : Segment → List String
  | .text _ => []
  | .reference name _ fallback =>
    if mode.replaces then
      name :: (if (scope name).isSome then [] else lookupsOfFallback scope mode fallback)
    else []
  | .call _ args _ => lookupsOfArgs scope mode args
termination_by structural s => s

/-- The names that a fallback looks up when it is taken. -/
def lookupsOfFallback (scope : Scope) (mode : Mode) : Option (List Segment) → List String
  | none => []
  | some segments => lookupsOf scope mode segments
termination_by structural f => f

/-- The names that a list of segments looks up. -/
def lookupsOf (scope : Scope) (mode : Mode) : List Segment → List String
  | [] => []
  | s :: rest => s.lookups scope mode ++ lookupsOf scope mode rest
termination_by structural segments => segments

/-- The names that the arguments of a call look up. -/
def lookupsOfArgs (scope : Scope) (mode : Mode) : List (List Segment) → List String
  | [] => []
  | arg :: rest => lookupsOf scope mode arg ++ lookupsOfArgs scope mode rest
termination_by structural args => args

end

variable {functions : Functions} {mode : Mode} {before after : Scope}

mutual

/-- A segment looks up names that it refers to, in their order. -/
theorem lookups_sublist_names (scope : Scope) : ∀ s : Segment,
    (s.lookups scope mode).Sublist s.names
  | .text t => List.Sublist.refl []
  | .reference name raw fallback => by
    rw [lookups, names]
    split
    · apply List.Sublist.cons_cons
      split
      · exact List.nil_sublist _
      · exact lookupsOfFallback_sublist scope fallback
    · exact List.nil_sublist _
  | .call name args raw => lookupsOfArgs_sublist scope args
termination_by structural s => s

theorem lookupsOfFallback_sublist (scope : Scope) : ∀ fallback : Option (List Segment),
    (lookupsOfFallback scope mode fallback).Sublist (namesOfFallback fallback)
  | none => List.Sublist.refl []
  | some segments => lookupsOf_sublist scope segments
termination_by structural fallback => fallback

theorem lookupsOf_sublist (scope : Scope) : ∀ segments : List Segment,
    (lookupsOf scope mode segments).Sublist (namesOf segments)
  | [] => List.Sublist.refl []
  | s :: rest => (lookups_sublist_names scope s).append (lookupsOf_sublist scope rest)
termination_by structural segments => segments

theorem lookupsOfArgs_sublist (scope : Scope) : ∀ args : List (List Segment),
    (lookupsOfArgs scope mode args).Sublist (namesOfArgs args)
  | [] => List.Sublist.refl []
  | arg :: rest => (lookupsOf_sublist scope arg).append (lookupsOfArgs_sublist scope rest)
termination_by structural args => args

end

/-! ## Scopes that agree -/

mutual

/-- **A segment depends on the names that it looks up only**, and scopes that agree on them have it
    look up the same names. -/
theorem eval_of_lookups : ∀ s : Segment,
    (∀ name ∈ s.lookups before mode, before name = after name) →
    s.eval before functions mode = s.eval after functions mode ∧
      s.lookups before mode = s.lookups after mode
  | .text t, _ => ⟨rfl, rfl⟩
  | .reference name raw fallback, h => by
    rw [eval, eval, lookups, lookups]
    cases hmode : mode.replaces with
    | false => exact ⟨rfl, rfl⟩
    | true =>
      rw [lookups, if_pos hmode] at h
      have hname : before name = after name := h name List.mem_cons_self
      rw [← hname]
      cases hfound : before name with
      | some v => exact ⟨rfl, rfl⟩
      | none =>
        -- Not found in either scope, so both take the fallback.
        have hbelow : ∀ n ∈ lookupsOfFallback before mode fallback, before n = after n := by
          intro n hn
          apply h n
          simp only [hfound, Option.isSome_none, Bool.false_eq_true, if_false]
          exact List.mem_cons_of_mem name hn
        obtain ⟨heval, hlookups⟩ := evalFallback_of_lookups raw fallback hbelow
        exact ⟨by simp [heval], by simp [hlookups]⟩
  | .call name args raw, h => by
    obtain ⟨heval, hlookups⟩ := evalArgs_of_lookups args h
    rw [eval, eval, lookups, lookups, heval]
    exact ⟨rfl, hlookups⟩
termination_by structural s => s

theorem evalFallback_of_lookups (raw : String) : ∀ fallback : Option (List Segment),
    (∀ name ∈ lookupsOfFallback before mode fallback, before name = after name) →
    evalFallback before functions mode raw fallback = evalFallback after functions mode raw fallback ∧
      lookupsOfFallback before mode fallback = lookupsOfFallback after mode fallback
  | none, _ => ⟨rfl, rfl⟩
  | some segments, h => by
    obtain ⟨heval, hlookups⟩ := evalList_of_lookups segments h
    rw [evalFallback, evalFallback, lookupsOfFallback, lookupsOfFallback, heval]
    exact ⟨rfl, hlookups⟩
termination_by structural fallback => fallback

theorem evalList_of_lookups : ∀ segments : List Segment,
    (∀ name ∈ lookupsOf before mode segments, before name = after name) →
    evalList before functions mode segments = evalList after functions mode segments ∧
      lookupsOf before mode segments = lookupsOf after mode segments
  | [], _ => ⟨rfl, rfl⟩
  | s :: rest, h => by
    obtain ⟨hfirst, hnames⟩ := eval_of_lookups s (fun n hn => h n (List.mem_append_left _ hn))
    obtain ⟨hothers, hrest⟩ :=
      evalList_of_lookups rest (fun n hn => h n (List.mem_append_right _ hn))
    rw [evalList, evalList, lookupsOf, lookupsOf, hfirst, hothers, hnames, hrest]
    exact ⟨rfl, rfl⟩
termination_by structural segments => segments

theorem evalArgs_of_lookups : ∀ args : List (List Segment),
    (∀ name ∈ lookupsOfArgs before mode args, before name = after name) →
    evalArgs before functions mode args = evalArgs after functions mode args ∧
      lookupsOfArgs before mode args = lookupsOfArgs after mode args
  | [], _ => ⟨rfl, rfl⟩
  | arg :: rest, h => by
    obtain ⟨hfirst, hnames⟩ := evalList_of_lookups arg (fun n hn => h n (List.mem_append_left _ hn))
    obtain ⟨hothers, hrest⟩ :=
      evalArgs_of_lookups rest (fun n hn => h n (List.mem_append_right _ hn))
    rw [evalArgs, evalArgs, lookupsOfArgs, lookupsOfArgs, hfirst, hothers, hnames, hrest]
    exact ⟨rfl, rfl⟩
termination_by structural args => args

end

/-- A segment depends on the names that it refers to. -/
theorem eval_congr (s : Segment) (h : ∀ name ∈ s.names, before name = after name) :
    s.eval before functions mode = s.eval after functions mode :=
  (eval_of_lookups s (fun n hn => h n ((lookups_sublist_names before s).subset hn))).1

theorem evalList_congr (segments : List Segment)
    (h : ∀ name ∈ namesOf segments, before name = after name) :
    evalList before functions mode segments = evalList after functions mode segments :=
  (evalList_of_lookups segments (fun n hn => h n ((lookupsOf_sublist before segments).subset hn))).1

end Segment

/-! ## Texts -/

open Segment (parse referencedNames lookupsOf lookupsOf_sublist evalList_of_lookups)

/-- **Evaluation reads only what the text declares.** It looks up names that the text refers to, in
    their order, and scopes that agree on those names are asked for the same ones and give the same
    value and the same flag. -/
theorem evaluate_reads_declared (text : String) (functions : Functions) (mode : Mode)
    {before after : Scope}
    (h : ∀ name ∈ referencedNames functions.contains text, before name = after name) :
    evaluate text before functions mode = evaluate text after functions mode ∧
      lookupsOf before mode (parse functions.contains text) =
        lookupsOf after mode (parse functions.contains text) ∧
      (lookupsOf before mode (parse functions.contains text)).Sublist
        (referencedNames functions.contains text) := by
  have hdeclared := @lookupsOf_sublist mode before (parse functions.contains text)
  have hlookups : ∀ name ∈ lookupsOf before mode (parse functions.contains text),
      before name = after name :=
    fun name hname => h name (hdeclared.subset hname)
  obtain ⟨heval, hnames⟩ := @evalList_of_lookups functions mode before after _ hlookups
  rw [evaluate, evaluate, heval]
  exact ⟨rfl, hnames, hdeclared⟩

/-- Two sets that differ in names which the text does not have: the fallback is read in both. -/
theorem evaluate_reads_declared_fallback :
    let text := "mix($a, var(--b, $c)) 2px"
    let before := TokenSet.scope [("a", .str "red"), ("c", .int 1)]
    let after := TokenSet.scope [("2px", .int 2), ("a", .str "red"), ("c", .int 1), ("mix", .int 3)]
    (∀ name ∈ referencedNames Functions.builtin.contains text, before name = after name) ∧
      evaluate text before Functions.builtin .all = evaluate text after Functions.builtin .all ∧
      lookupsOf before .all (parse Functions.builtin.contains text) = ["a", "b", "c"] := by
  intro text before after
  have hagree : ∀ name ∈ referencedNames Functions.builtin.contains text,
      before name = after name := by
    decide +kernel
  obtain ⟨heval, -, -⟩ := evaluate_reads_declared text Functions.builtin .all hagree
  exact ⟨hagree, heval, by decide +kernel⟩

end Theming
