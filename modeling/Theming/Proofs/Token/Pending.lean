import Theming.Proofs.Token.Nesting
import Theming.Proofs.Token.Repeating

set_option autoImplicit false

/-! # What the report of a resolution lists

Whether a text refers to something does not depend on which names are functions
(`anyRefers_ofLexemes`): the contents of parentheses are read the same whether they are the arguments
of a call, one by one, or go on in a text (`argsRefer_arguments`). So the quick test on a text
counts every reference that evaluation sees, and beyond them only dollar signs (`mayRefer_iff`).

A resolved set therefore has in its report every leaf that refers to something, in order, and besides
only texts with a dollar sign that starts no reference. The main result is
`Resolver.unresolved_exact`. -/

namespace Theming

namespace Segment

open Lexeme (Closes Scanned callAfter? parts arguments)

variable {isFunction : String → Bool}

/-! ## References in segments -/

mutual

/-- A segment refers to something if there are names in it. -/
theorem refers_iff_names : ∀ s : Segment, s.refers = true ↔ s.names ≠ []
  | .text t => by simp [refers, names]
  | .reference name raw fallback => by simp [refers, names]
  | .call name args raw => by rw [refers, names, argsRefer_iff_names args]
termination_by structural s => s

theorem anyRefers_iff_names : ∀ segments : List Segment,
    anyRefers segments = true ↔ namesOf segments ≠ []
  | [] => by simp [anyRefers, namesOf]
  | s :: rest => by
    rw [anyRefers, namesOf, Bool.or_eq_true, refers_iff_names s, anyRefers_iff_names rest]
    simp only [ne_eq, List.append_eq_nil_iff, Classical.not_and_iff_not_or_not]
termination_by structural segments => segments

theorem argsRefer_iff_names : ∀ args : List (List Segment),
    argsRefer args = true ↔ namesOfArgs args ≠ []
  | [] => by simp [argsRefer, namesOfArgs]
  | arg :: rest => by
    rw [argsRefer, namesOfArgs, Bool.or_eq_true, anyRefers_iff_names arg, argsRefer_iff_names rest]
    simp only [ne_eq, List.append_eq_nil_iff, Classical.not_and_iff_not_or_not]
termination_by structural args => args

end

theorem anyRefers_pushText (t : String) (segments : List Segment) :
    anyRefers (pushText t segments) = anyRefers segments := by
  unfold pushText
  split <;> rfl

theorem anyRefers_append (a b : List Segment) :
    anyRefers (append a b) = (anyRefers a || anyRefers b) := by
  induction a with
  | nil => rfl
  | cons s rest ih =>
    cases s with
    | text t => rw [append, anyRefers_pushText, ih]; rfl
    | reference name raw fallback => rfl
    | call name args raw => rw [append, anyRefers, anyRefers, ih, Bool.or_assoc]; simp

/-! ## Reading references -/

theorem anyRefers_cons (isFunction : String → Bool) (l : Lexeme) (rest : List Lexeme) :
    anyRefers (ofLexemes isFunction (l :: rest)) =
      ((first isFunction l rest).1.refers ||
        anyRefers (ofLexemes isFunction (first isFunction l rest).2)) := by
  rw [ofLexemes_cons, anyRefers_append, anyRefers, anyRefers, Bool.or_false]

/-- Parentheses and commas outside calls refer to nothing. -/
theorem anyRefers_mark {l : Lexeme} (h : l.kind = .opening ∨ l.kind = .closing ∨ l.kind = .comma)
    (rest : List Lexeme) :
    anyRefers (ofLexemes isFunction (l :: rest)) = anyRefers (ofLexemes isFunction rest) := by
  have hfirst : first isFunction l rest = (.text (String.ofList l.text), rest) := by
    rcases h with h | h | h <;> simp only [first, h]
  rw [anyRefers_cons, hfirst, refers, Bool.false_or]

/-- Parts between commas refer to what the whole refers to. -/
theorem any_parts (isFunction : String → Bool) : ∀ {ls : List Lexeme}, Closes 0 ls →
    (parts 0 ls).any (fun part => anyRefers (ofLexemes isFunction part)) =
      anyRefers (ofLexemes isFunction ls) := by
  intro ls h
  rcases Lexeme.parts_cases 0 ls with hone | ⟨part, comma, rest, hkind, hls, hparts, hcloses⟩
  · rw [hone, List.any_cons, List.any_nil, Bool.or_false]
  · obtain ⟨hpart, hrest⟩ := hcloses h
    have hshort : rest.length < ls.length := by
      rw [hls, List.length_append, List.length_cons]
      omega
    have hnext : comma.kind ≠ .opening := by simp [hkind]
    rw [hparts, List.any_cons, any_parts isFunction hrest, hls, ofLexemes_append hnext rest hpart,
      anyRefers_append, anyRefers_mark (Or.inr (Or.inr hkind))]
termination_by ls => ls.length

theorem argsRefer_eq_any (args : List (List Segment)) : argsRefer args = args.any anyRefers := by
  induction args with
  | nil => rfl
  | cons arg rest ih => rw [argsRefer, List.any_cons, ih]

/-- The arguments of a call refer to what its contents refer to. -/
theorem argsRefer_arguments {inner : List Lexeme} (h : Closes 0 inner) :
    argsRefer ((arguments inner).map (ofLexemes isFunction)) =
      anyRefers (ofLexemes isFunction inner) := by
  rw [argsRefer_eq_any, List.any_map, arguments]
  split
  · next hempty => rw [List.isEmpty_iff.1 hempty, ofLexemes_nil]; rfl
  · exact any_parts isFunction h

/-- What is read as plain text goes on with the contents of the parentheses. -/
theorem anyRefers_parentheses {rest inner after : List Lexeme}
    (hcall : callAfter? rest = some (inner, after)) :
    anyRefers (ofLexemes isFunction rest) =
      (anyRefers (ofLexemes isFunction inner) || anyRefers (ofLexemes isFunction after)) := by
  obtain ⟨opening, closing, hopening, hclosing, hsplit, -⟩ := Lexeme.callAfter?_spec hcall
  have hnext : closing.kind ≠ .opening := by simp [hclosing]
  rw [hsplit, anyRefers_mark (Or.inl hopening),
    ofLexemes_append hnext after (Lexeme.closes_inner hcall), anyRefers_append,
    anyRefers_mark (Or.inr (Or.inl hclosing))]

/-- **Whether a name is a function makes no difference** to what is referred to in parentheses behind
    it. -/
theorem anyRefers_name {l : Lexeme} {rest inner after : List Lexeme} (hkind : l.kind = .name)
    (hvar : l.text ≠ variableFunction) (hcall : callAfter? rest = some (inner, after)) :
    anyRefers (ofLexemes isFunction (l :: rest)) =
      (anyRefers (ofLexemes isFunction inner) || anyRefers (ofLexemes isFunction after)) := by
  rw [anyRefers_cons]
  simp only [first, hkind, hcall, if_neg hvar]
  split
  · rw [refers, argsRefer_arguments (Lexeme.closes_inner hcall)]
  · rw [refers, Bool.false_or, anyRefers_parentheses hcall]

/-- Only what a name with parentheses behind it is depends on which names are functions. -/
theorem first_agree (f g : String → Bool) {l : Lexeme} {rest : List Lexeme}
    (h : ¬(l.kind = .name ∧ l.text ≠ variableFunction ∧ callAfter? rest ≠ none)) :
    (first f l rest).1.refers = (first g l rest).1.refers ∧
      (first f l rest).2 = (first g l rest).2 := by
  cases hkind : l.kind with
  | name =>
    simp only [first, hkind]
    cases hcall : callAfter? rest with
    | none => exact ⟨rfl, rfl⟩
    | some found =>
      have hvar : l.text = variableFunction :=
        Decidable.byContradiction fun hne => h ⟨hkind, hne, by simp [hcall]⟩
      simp only [if_pos hvar]
      split <;> exact ⟨rfl, rfl⟩
  | _ =>
    have hsame : first f l rest = first g l rest := by simp only [first, hkind]
    rw [hsame]
    exact ⟨rfl, rfl⟩

/-- **Whether something is referred to does not depend on which names are functions.** -/
theorem anyRefers_ofLexemes (f g : String → Bool) : ∀ ls : List Lexeme,
    anyRefers (ofLexemes f ls) = anyRefers (ofLexemes g ls)
  | [] => by rw [ofLexemes_nil, ofLexemes_nil]
  | l :: rest => by
    by_cases hcalled : l.kind = .name ∧ l.text ≠ variableFunction ∧ callAfter? rest ≠ none
    · obtain ⟨hkind, hvar, hsome⟩ := hcalled
      obtain ⟨⟨inner, after⟩, hcall⟩ := Option.ne_none_iff_exists'.1 hsome
      have hlength := Lexeme.length_callAfter? hcall
      rw [anyRefers_name hkind hvar hcall, anyRefers_name hkind hvar hcall,
        anyRefers_ofLexemes f g inner, anyRefers_ofLexemes f g after]
    · have hlength := (first_suffix f l rest).length_le
      obtain ⟨hrefers, hrest⟩ := first_agree f g hcalled
      rw [anyRefers_cons f, anyRefers_cons g, hrefers, ← hrest, anyRefers_ofLexemes f g]
termination_by ls => ls.length
decreasing_by all_goals simp only [List.length_cons]; omega

/-! ## How references are spelled -/

/-- References are spelled with a dollar sign, unless they are calls. -/
theorem dollar_of_reference {l : Lexeme} {rest : List Lexeme} (h : Scanned (l :: rest))
    (hkind : l.kind = .reference ∨ l.kind = .braced) : '$' ∈ Lexeme.join (l :: rest) := by
  obtain ⟨c, s, hjoin, hnext, -⟩ := h.uncons
  have hdollar : c = '$' := by
    rw [hnext] at hkind
    grind [Lexeme.next]
  rw [hjoin, hdollar]
  exact List.mem_cons_self

/-- **What refers to something is spelled with a dollar sign or as a call of `var`.** -/
theorem spelled_of_anyRefers (isFunction : String → Bool) : ∀ {ls : List Lexeme}, Scanned ls →
    anyRefers (ofLexemes isFunction ls) = true →
    '$' ∈ Lexeme.join ls ∨ variableFunction ++ ['('] <:+: Lexeme.join ls
  | [], _, hrefers => by
    rw [ofLexemes_nil] at hrefers
    cases hrefers
  | l :: rest, h, hrefers => by
    -- It is enough to find the spelling in a part of the text.
    have hspelled : ∀ part, Lexeme.join part <:+: Lexeme.join rest →
        ('$' ∈ Lexeme.join part ∨ variableFunction ++ ['('] <:+: Lexeme.join part) →
        '$' ∈ Lexeme.join (l :: rest) ∨
          variableFunction ++ ['('] <:+: Lexeme.join (l :: rest) := by
      intro part hinfix
      have hall : Lexeme.join part <:+: Lexeme.join (l :: rest) := by
        rw [Lexeme.join_cons]
        exact hinfix.trans (List.suffix_append _ _).isInfix
      exact Or.imp (fun hdollar => hall.subset hdollar) (fun hvar => hvar.trans hall)
    have hbehind : first isFunction l rest = (.text (String.ofList l.text), rest) →
        '$' ∈ Lexeme.join (l :: rest) ∨
          variableFunction ++ ['('] <:+: Lexeme.join (l :: rest) := by
      intro hfirst
      rw [anyRefers_cons, hfirst, refers, Bool.false_or] at hrefers
      exact hspelled rest (List.infix_refl _) (spelled_of_anyRefers isFunction h.tail hrefers)
    cases hkind : l.kind with
    | reference => exact Or.inl (dollar_of_reference h (Or.inl hkind))
    | braced => exact Or.inl (dollar_of_reference h (Or.inr hkind))
    | name =>
      cases hcall : callAfter? rest with
      | none => exact hbehind (by simp only [first, hkind, hcall])
      | some found =>
        obtain ⟨inner, after⟩ := found
        have hlength := Lexeme.length_callAfter? hcall
        have hjoin := Lexeme.join_of_callAfter? h.tail.isSpelled hcall
        by_cases hvar : l.text = variableFunction
        · refine Or.inr ⟨[], Lexeme.join inner ++ ')' :: Lexeme.join after, ?_⟩
          rw [Lexeme.join_cons, hjoin, hvar]
          simp
        · rw [anyRefers_name hkind hvar hcall, Bool.or_eq_true] at hrefers
          rcases hrefers with hinner | hafter
          · refine hspelled inner ?_ (spelled_of_anyRefers isFunction (h.tail.inner hcall) hinner)
            exact ⟨['('], ')' :: Lexeme.join after, by simp [hjoin]⟩
          · obtain ⟨opening, closing, -, -, hsplit, -⟩ := Lexeme.callAfter?_spec hcall
            have hscanned : Scanned after := by
              have htail := h.tail
              rw [hsplit] at htail
              exact htail.tail.right.tail
            refine hspelled after ?_ (spelled_of_anyRefers isFunction hscanned hafter)
            exact ⟨'(' :: (Lexeme.join inner ++ [')']), [], by simp [hjoin]⟩
    | _ => exact hbehind (by simp only [first, hkind])
termination_by ls => ls.length
decreasing_by all_goals simp only [List.length_cons]; omega

/-- **The quick test counts dollar signs and what evaluation would look up**, whichever names are
    functions. -/
theorem mayRefer_iff (isFunction : String → Bool) (text : String) :
    mayRefer text = true ↔ '$' ∈ text.toList ∨ referencedNames isFunction text ≠ [] := by
  rw [mayRefer, referencedNames, ← anyRefers_iff_names, Bool.or_eq_true, Bool.and_eq_true,
    List.contains_iff_mem, Text.occurs_iff, parse, parse,
    anyRefers_ofLexemes (fun _ => true) isFunction]
  constructor
  · exact Or.imp_right And.right
  · rintro (hdollar | hrefers)
    · exact Or.inl hdollar
    · have hspelled := spelled_of_anyRefers isFunction (Lexeme.scanned_scan text.toList) hrefers
      rw [Lexeme.join_scan] at hspelled
      exact hspelled.imp_right (fun hvar => ⟨hvar, hrefers⟩)

end Segment

namespace Resolver

open TokenSet (Keyed leaves)

/-! ## The report -/

/-- Whether a leaf is a text with a reference in it, as evaluation reads it. -/
def refersLeaf (functions : Functions) (leaf : String × Value) : Bool :=
  match leaf.2 with
  | .str text => !(Segment.referencedNames functions.contains text).isEmpty
  | _ => false

/-- Whether a leaf is a text with a dollar sign in it. -/
def hasDollar (leaf : String × Value) : Bool :=
  match leaf.2 with
  | .str text => text.toList.contains '$'
  | _ => false

theorem isPending_eq (functions : Functions) (leaf : String × Value) :
    isPending leaf = (hasDollar leaf || refersLeaf functions leaf) := by
  obtain ⟨path, v⟩ := leaf
  cases v with
  | str text =>
    rw [isPending, hasDollar, refersLeaf, Bool.eq_iff_iff,
      Segment.mayRefer_iff functions.contains, Bool.or_eq_true, List.contains_iff_mem]
    simp
  | bool b => rfl
  | int n => rfl
  | float x => rfl
  | map entries => rfl

/-- A weaker test picks as much only if it picks the same. -/
theorem map_filter_eq_iff {α β : Type} (f : α → β) {p q : α → Bool} {list : List α}
    (h : ∀ a ∈ list, p a = true → q a = true) :
    (list.filter q).map f = (list.filter p).map f ↔ ∀ a ∈ list, q a = true → p a = true := by
  constructor
  · intro heq
    have hlength := congrArg List.length heq
    rw [List.length_map, List.length_map] at hlength
    have hboth : (list.filter q).filter p = list.filter p := by
      rw [List.filter_filter]
      exact List.filter_congr fun a ha => Bool.eq_iff_iff.2 (by simp; exact h a ha)
    have hsublist : List.Sublist (list.filter p) (list.filter q) :=
      hboth ▸ List.filter_sublist
    intro a ha hq
    have hmem : a ∈ list.filter q := List.mem_filter.2 ⟨ha, hq⟩
    rw [← hsublist.eq_of_length hlength.symm] at hmem
    exact (List.mem_filter.1 hmem).2
  · intro hback
    rw [List.filter_congr fun a ha => Bool.eq_iff_iff.2 ⟨hback a ha, h a ha⟩]

/-- **The report lists every leaf that refers to something**, in the order of the leaves, and besides
    only texts with a dollar sign in them. So it is exact where every such text refers to something,
    and nowhere else. No path is listed twice if all keys can stand in paths. -/
theorem unresolved_exact (set : TokenSet) (functions : Functions) (resolver : Resolver) :
    let resolved := (resolver.resolve set functions).1
    let unresolved := (resolver.resolve set functions).2.unresolved
    unresolved = ((leaves resolved).filter (fun l => hasDollar l || refersLeaf functions l)).map
        (·.1) ∧
      (unresolved = ((leaves resolved).filter (refersLeaf functions)).map (·.1) ↔
        ∀ leaf ∈ leaves resolved, hasDollar leaf = true → refersLeaf functions leaf = true) ∧
      (Keyed set → functions.Keyed → unresolved.Nodup) := by
  intro resolved unresolved
  have hlisted : unresolved =
      ((leaves resolved).filter (fun l => hasDollar l || refersLeaf functions l)).map (·.1) := by
    rw [← funext (isPending_eq functions)]
    rfl
  refine ⟨hlisted, ?_, fun hkeyed hfunctions => ?_⟩
  · rw [hlisted, map_filter_eq_iff]
    · simp only [Bool.or_eq_true, or_imp, imp_self, and_true]
    · intro leaf _ hrefers
      rw [hrefers, Bool.or_true]
  · have hresolved := keyed_resolve hkeyed hfunctions resolver
    rw [hlisted]
    exact (TokenSet.nodup_paths hresolved).sublist (List.filter_sublist.map _)

/-- References that are never found, one of them in an argument, and a dollar sign next to one. -/
theorem unresolved_exact_nested :
    let set : TokenSet :=
      [("a", .str "$b or 5$"), ("b", .str "${c}"), ("d", .str "1px"),
        ("m", .map [("x", .str "lighten(var(--y), 0.1)")])]
    let resolved := ((standard false).resolve set Functions.builtin).1
    let unresolved := ((standard false).resolve set Functions.builtin).2.unresolved
    unresolved = ["a", "b", "m.x"] ∧
      unresolved = ((leaves resolved).filter (refersLeaf Functions.builtin)).map (·.1) ∧
      unresolved.Nodup := by
  intro set resolved unresolved
  obtain ⟨-, hexact, hnodup⟩ := unresolved_exact set Functions.builtin (standard false)
  refine ⟨by decide +kernel, hexact.2 (by decide +kernel), hnodup ?_ Functions.keyed_builtin⟩
  decide +kernel

/-- A text that ends with a dollar sign is listed and refers to nothing. -/
theorem unresolved_lists_dollar :
    ((standard false).resolve [("a", .str "cost: 5$")] Functions.builtin).2.unresolved ≠
      ((leaves ((standard false).resolve [("a", .str "cost: 5$")] Functions.builtin).1).filter
        (refersLeaf Functions.builtin)).map (·.1) := by
  decide +kernel

end Resolver

end Theming
