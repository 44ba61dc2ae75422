import Theming.Style.Compiler
import Theming.Style.Rule

set_option autoImplicit false

/-! # Overlays

An overlay holds rules under conditions. It generates a stylesheet from a template by compiling it
and writing behind it the rules that apply in the context. The outputs are cached. -/

namespace Theming.Style

open Sheet (Node)

/-- What a generated stylesheet depends on besides settings and functions: the output of the
    compiler and the version of the rules. -/
structure OverlayKey where
  output : OutputKey
  version : Nat
deriving Repr, DecidableEq

/-- The state of an overlay. -/
structure Overlay where
  settings : OverlaySettings
  rules : List Rule
  /-- How often the rules were changed. -/
  version : Nat
  outputs : Cache OverlayKey String
  counters : Counters
deriving Inhabited

namespace Overlay

/-- An overlay without rules. -/
def start (settings : OverlaySettings) : Overlay := ⟨settings, [], 0, [], []⟩

/-! ## Changes -/

/-- Forgets every output. -/
def clearCache (o : Overlay) : Overlay := { o with outputs := [] }

/-- Replaces the settings. -/
def withSettings (o : Overlay) (settings : OverlaySettings) : Overlay :=
  { o with settings := settings }.clearCache

/-- Replaces the rules. -/
def withRules (o : Overlay) (rules : List Rule) : Overlay :=
  { o with rules := rules, version := o.version + 1, outputs := [] }

/-- Puts a rule in the place of the first one with the same selector, or behind all. -/
def place (rule : Rule) : List Rule → List Rule
  | [] => [rule]
  | r :: rest => if r.selector = rule.selector then rule :: rest else r :: place rule rest

/-- Adds a rule. Refused without a selector, and for a property without a name. -/
def add (o : Overlay) (rule : Rule) : Option Overlay :=
  let rule := rule.trimmed
  if rule.isNamed then some (o.withRules (place rule o.rules)) else none

/-- Removes the rule of a selector; nothing happens if there is none. -/
def remove (o : Overlay) (selector : String) : Option Overlay :=
  let left := o.rules.filter (fun r => r.selector ≠ Text.trimmed selector)
  if left.length = o.rules.length then none else some (o.withRules left)

theorem add_eq_some_iff {o o' : Overlay} {rule : Rule} :
    o.add rule = some o' ↔
      rule.trimmed.isNamed = true ∧ o.withRules (place rule.trimmed o.rules) = o' := by
  unfold add
  dsimp only
  split
  · next hnamed => simp [hnamed]
  · next hnamed => simp [hnamed]

theorem remove_eq_some_iff {o o' : Overlay} {selector : String} :
    o.remove selector = some o' ↔
      (∃ r ∈ o.rules, r.selector = Text.trimmed selector) ∧
        o.withRules (o.rules.filter (fun r => r.selector ≠ Text.trimmed selector)) = o' := by
  have hall : (o.rules.filter (fun r => r.selector ≠ Text.trimmed selector)).length =
      o.rules.length ↔ ¬ ∃ r ∈ o.rules, r.selector = Text.trimmed selector := by
    rw [List.length_filter_eq_length_iff]
    simp
  unfold remove
  dsimp only
  split
  · next hnone => exact ⟨fun h => (by cases h), fun h => absurd h.1 (hall.1 hnone)⟩
  · next hsome =>
    have hfound : ∃ r ∈ o.rules, r.selector = Text.trimmed selector := by
      rwa [hall, Classical.not_not] at hsome
    exact ⟨fun h => ⟨hfound, Option.some.inj h⟩, fun h => congrArg some h.2⟩

/-- Removes every rule. -/
def clear (o : Overlay) : Overlay := o.withRules []

/-- Forgets every figure. -/
def resetMetrics (o : Overlay) : Overlay := { o with counters := [] }

/-! ## Generating -/

/-- The rules that apply in a context, in order. -/
def applying (o : Overlay) (context : TokenSet) : List Rule := o.rules.filter (Rule.applies context)

/-- The tree of the rules that apply in a context. -/
def tree (o : Overlay) (context : TokenSet) : Node :=
  .root ((o.applying context).flatMap (Rule.nodes o.settings.mediaQueries))

/-- Compiles a template and writes the rules that apply behind it. -/
def generate (o : Overlay) (c : Compiler) (template : String) (context : TokenSet) :
    String × Overlay × Compiler :=
  let key : OverlayKey := ⟨c.outputKey template context, o.version⟩
  match Cache.findWhen? o.settings.caches key o.outputs with
  | some out => (out, { o with counters := o.counters.bump "cache_hits" }, c)
  | none =>
    let (base, c) := c.compile template context
    let rules := o.tree context
    let (filled, c) := c.substitute rules context
    let out := base ++ c.serialize filled
    (out,
      { o with
        outputs := Cache.insertWhen o.settings.caches key out o.outputs
        counters :=
          (o.counters.bump "generations").count "matched_rules" (rules.ofKind .rule).length },
      c)

/-- The figures of an overlay. -/
def metrics (o : Overlay) : Counters :=
  Table.insert "cache_size" (Float.ofNat o.outputs.length)
    (Table.insert "rules" (Float.ofNat o.rules.length) o.counters)

end Overlay

end Theming.Style
