import Theming.Proofs.Sheet.Positions
import Theming.Proofs.Token.Pending
import Theming.Style.Substitution

set_option autoImplicit false

/-! # What substitution changes

Substitution takes the definitions of local names out of the top of a tree and evaluates one text of
each declaration and of each condition block. Nothing else of the tree is changed
(`Settles`, `substitute_settles`).

Texts without a reference and without a parenthesis are not evaluated at all. That is no loss, since
a text is read as more than plain text only if it has a dollar sign or a call in it, whatever names
are functions (`spelled_of_isDynamic`). -/

namespace Theming

/-! ## Texts that are read as plain text -/

namespace Segment

open Lexeme (Scanned join callAfter?)

theorem isDynamic_append (s : Segment) (after : List Segment) :
    isDynamic (append [s] after) = (!s.isText || isDynamic after) := by
  cases s with
  | text t =>
    show isDynamic (pushText t after) = _
    unfold pushText
    split <;> simp [isDynamic, isText]
  | reference name raw fallback => rfl
  | call name args raw => rfl

/-- A reference starts with a dollar sign, and a call has its parentheses. -/
theorem spelled_of_first (isFunction : String → Bool) {l : Lexeme} {rest : List Lexeme}
    (h : Scanned (l :: rest)) (hfirst : (first isFunction l rest).1.isText = false) :
    '$' ∈ join (l :: rest) ∨ '(' ∈ join (l :: rest) := by
  by_cases href : l.kind = .reference ∨ l.kind = .braced
  · exact Or.inl (dollar_of_reference h href)
  right
  obtain ⟨hreference, hbraced⟩ := not_or.1 href
  cases hcall : callAfter? rest with
  | none =>
    have htext : (first isFunction l rest).1 = .text (String.ofList l.text) := by
      unfold first
      rw [hcall]
      split <;> simp_all
    rw [htext] at hfirst
    cases hfirst
  | some found =>
    rw [Lexeme.join_cons, Lexeme.join_of_callAfter? h.tail.isSpelled hcall]
    simp

/-- **What is read as more than plain text is spelled with a dollar sign or a parenthesis.** -/
theorem spelled_of_isDynamic (isFunction : String → Bool) : ∀ {ls : List Lexeme}, Scanned ls →
    isDynamic (ofLexemes isFunction ls) = true → '$' ∈ join ls ∨ '(' ∈ join ls
  | [], _, hdynamic => by
    rw [ofLexemes_nil] at hdynamic
    cases hdynamic
  | l :: rest, h, hdynamic => by
    rw [ofLexemes_cons, isDynamic_append, Bool.or_eq_true, Bool.not_eq_true'] at hdynamic
    rcases hdynamic with hfirst | hafter
    · exact spelled_of_first isFunction h hfirst
    · -- What is left behind the first segment is the end of the text.
      have hsuffix := (first_suffix isFunction l rest).trans (List.suffix_cons l rest)
      have hspelled := spelled_of_isDynamic isFunction (h.suffix hsuffix) hafter
      obtain ⟨used, hused⟩ := hsuffix
      rw [← hused, Lexeme.join_append]
      exact hspelled.imp (List.mem_append_right _) (List.mem_append_right _)
termination_by ls => ls.length
decreasing_by
  have := (first_suffix isFunction l rest).length_le
  simp only [List.length_cons]
  omega

end Segment

namespace Style

open Sheet (Node Kind)

/-- **A text that is not evaluated would not change**, whatever it is evaluated with. -/
theorem evaluate_of_not_mayChange {text : String} (h : mayChange text = false) (scope : Scope)
    (functions : Functions) (mode : Mode) :
    evaluate text scope functions mode = ⟨.str text, false⟩ := by
  unfold evaluate
  dsimp only
  split
  · next hdynamic =>
    have hspelled := Segment.spelled_of_isDynamic functions.contains
      (Lexeme.scanned_scan text.toList) hdynamic
    rw [Lexeme.join_scan] at hspelled
    simp only [mayChange, Segment.mayRefer, Bool.or_eq_false_iff] at h
    simp only [← List.contains_iff_mem, h.1.1, h.2] at hspelled
    exact absurd hspelled (by decide)
  · rfl

/-! ## One node -/

/-- A node after substitution beside what it was: the value of a declaration and the prelude of a
    condition block are evaluated, everything else is the same. -/
structure Settles (scope : Scope) (functions : Functions) (n m : Node) : Prop where
  kind : m.kind = n.kind
  declaration : n.kind = .declaration →
    m.prop Sheet.valueKey = evaluateText (n.prop Sheet.valueKey) scope functions .all ∧
      ∀ key ≠ Sheet.valueKey, Table.find? key m.properties = Table.find? key n.properties
  condition : n.kind = .condition →
    m.prop Sheet.preludeKey = evaluateText (n.prop Sheet.preludeKey) scope functions .all ∧
      ∀ key ≠ Sheet.preludeKey, Table.find? key m.properties = Table.find? key n.properties
  other : n.kind ≠ .declaration → n.kind ≠ .condition → m.properties = n.properties

variable (scope : Scope) (functions : Functions)

/-- The text of a kind that is evaluated becomes its value; the others are the same. -/
theorem evaluateProperties_of_key {kind : Kind} {key : String} (hkey : evaluatedKey? kind = some key)
    (properties : Table String) :
    (Table.find? key (evaluateProperties scope functions kind properties)).getD "" =
        evaluateText ((Table.find? key properties).getD "") scope functions .all ∧
      ∀ other ≠ key, Table.find? other (evaluateProperties scope functions kind properties) =
        Table.find? other properties := by
  rw [evaluateProperties, hkey]
  dsimp only
  unfold outcome?
  by_cases hchange : mayChange ((Table.find? key properties).getD "") = true
  · rw [if_pos hchange]
    dsimp only
    rw [Table.find?_insert_self]
    exact ⟨rfl, fun other hother => by rw [Table.find?_insert, if_neg hother]⟩
  · rw [if_neg hchange, evaluateText, evaluate_of_not_mayChange (by simpa using hchange)]
    exact ⟨rfl, fun _ _ => rfl⟩

theorem evaluateTrees_eq_map (nodes : List Node) :
    evaluateTrees scope functions nodes = nodes.map (evaluateTree scope functions) := by
  induction nodes with
  | nil => rfl
  | cons n rest ih => rw [evaluateTrees, ih, List.map_cons]

theorem children_evaluateTree (n : Node) :
    (evaluateTree scope functions n).children = n.children.map (evaluateTree scope functions) := by
  obtain ⟨kind, properties, children⟩ := n
  rw [evaluateTree, evaluateTrees_eq_map]
  rfl

theorem settles_evaluateTree (n : Node) :
    Settles scope functions n (evaluateTree scope functions n) := by
  obtain ⟨kind, properties, children⟩ := n
  have hproperties : (evaluateTree scope functions (.mk kind properties children)).properties =
      evaluateProperties scope functions kind properties := rfl
  refine ⟨rfl, ?_, ?_, ?_⟩
  · intro hkind
    have hkey : evaluatedKey? kind = some Sheet.valueKey := by
      rw [show kind = .declaration from hkind]
      rfl
    exact evaluateProperties_of_key scope functions hkey properties
  · intro hkind
    have hkey : evaluatedKey? kind = some Sheet.preludeKey := by
      rw [show kind = .condition from hkind]
      rfl
    exact evaluateProperties_of_key scope functions hkey properties
  · intro hdeclaration hcondition
    rw [hproperties, evaluateProperties]
    have hnone : evaluatedKey? kind = none := by
      cases kind with
      | declaration => exact absurd rfl hdeclaration
      | condition => exact absurd rfl hcondition
      | root | rule | selector | comment => rfl
    rw [hnone]
    rfl

/-! ## The whole tree -/

/-- **Substitution changes what it should and nothing else.** Whatever the tree, the context, the
    tokens and the functions are, the definitions at the top are taken out, and the tree that is left
    keeps its shape: position by position, a declaration gets the value and a condition block the
    prelude that full evaluation gives, looked up in the context, then in the local names, then in the
    tokens. A text that is passed over would be the same after evaluation. -/
theorem substitute_settles (context tokens : TokenSet) (functions : Functions) (tree : Node) :
    let rest := tree.withChildren (tree.children.filter (fun n =>
      !(n.kind = .declaration && Text.headIs '$' (n.prop Sheet.propertyKey))))
    let scope := Scope.layered [context, localsOf context tokens functions tree, tokens]
    (∀ p, Option.Rel (Settles scope functions) (rest.at? p)
      ((substitute context tokens functions tree).1.at? p)) ∧
    ∀ text, mayChange text = false → ∀ mode, evaluate text scope functions mode = ⟨.str text, false⟩ := by
  intro rest scope
  refine ⟨fun p => ?_, fun text htext => evaluate_of_not_mayChange htext scope functions⟩
  have hout : (substitute context tokens functions tree).1 = evaluateTree scope functions rest := rfl
  rw [hout, Node.at?_of_children_map (children_evaluateTree scope functions)]
  cases rest.at? p with
  | none => exact .none
  | some n => exact .some (settles_evaluateTree scope functions n)

end Style

end Theming
