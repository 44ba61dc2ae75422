import Theming.Text.Lowercase
import Theming.Token.Resolution

set_option autoImplicit false

/-! # Themes

A collection of themes is a base set of tokens and one set per theme that is laid over it. The
theme engine builds the tokens of a theme by merging and resolving. -/

namespace Theming

/-! ## Names -/

/-- The canonical spelling of a theme name: blanks around it dropped, lower case, hyphens for
    underscores and spaces, and `high-contrast` for the spelling without a separator. -/
def themeName (name : String) : String :=
  let lowered := Text.lowercase (Text.trimmed name)
  let hyphened := Text.swapChar ' ' '-' (Text.swapChar '_' '-' lowered)
  if hyphened = "highcontrast" then "high-contrast" else hyphened

/-! ## Collections -/

/-- A base set and the sets of the themes over it. -/
structure Themes where
  base : Option TokenSet
  sets : Table TokenSet
deriving Repr, DecidableEq, Inhabited

namespace Themes

/-- The base set, empty when there is none. -/
def baseSet (themes : Themes) : TokenSet := themes.base.getD []

/-- The set of a theme, found by its name or by the canonical spelling of it. -/
def find? (themes : Themes) (name : String) : Option TokenSet :=
  match Table.find? name themes.sets with
  | some set => some set
  | none => Table.find? (themeName name) themes.sets

/-- Whether there is a theme of that name. -/
def has (themes : Themes) (name : String) : Bool := (themes.find? name).isSome

/-- The names of the themes, in order. -/
def names (themes : Themes) : List String := Table.names themes.sets

end Themes

/-! ## The engine -/

/-- Builds the tokens of themes. -/
structure ThemeEngine where
  themes : Themes
  functions : Functions
  resolver : Resolver
  /-- What the last resolution did. -/
  report : Report

namespace ThemeEngine

/-- An engine that has not resolved anything yet. -/
def start (themes : Themes) (resolver : Resolver) : ThemeEngine :=
  ⟨themes, Functions.builtin, resolver, Report.initial⟩

/-- Resolves a set and keeps the report. -/
def resolve (engine : ThemeEngine) (set : TokenSet) : TokenSet × ThemeEngine :=
  let (resolved, report) := engine.resolver.resolve set engine.functions
  (resolved, { engine with report := report })

/-- The tokens of a theme: its set laid over the base and resolved. Nothing changes if there is no
    such theme. -/
def build (engine : ThemeEngine) (name : String) : Option TokenSet × ThemeEngine :=
  match engine.themes.find? name with
  | some theme =>
    let (resolved, engine) := engine.resolve (TokenSet.merge engine.themes.baseSet theme)
    (some resolved, engine)
  | none => (none, engine)

/-- Adds or replaces a function. -/
def register (engine : ThemeEngine) (name : String) (f : ValueFunction) : ThemeEngine :=
  { engine with functions := Table.insert name f engine.functions }

end ThemeEngine

end Theming
