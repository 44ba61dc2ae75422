import Theming.Cache
import Theming.Counters
import Theming.Settings.Basic
import Theming.Sheet.Reading
import Theming.Style.Substitution

set_option autoImplicit false

/-! # The compiler

Compiles templates to stylesheets: a template is read, token values are put into its tree, and the
tree is written. Trees are cached by the text of the template, outputs by the text, the leaves of
the context and the version of the tokens. -/

namespace Theming.Style

open Sheet (Node)

/-- What an output depends on besides settings and functions: the template, the leaves of the
    context and the version of the tokens. -/
structure OutputKey where
  template : String
  leaves : Table Value
  version : Nat
deriving Repr, DecidableEq

/-- The state of a compiler. -/
structure Compiler where
  settings : CompilerSettings
  functions : Functions
  tokens : TokenSet
  /-- How often the tokens were replaced. -/
  version : Nat
  trees : Cache String Node
  outputs : Cache OutputKey String
  counters : Counters
deriving Inhabited

namespace Compiler

/-- A compiler without tokens that has compiled nothing yet. -/
def start (settings : CompilerSettings) (functions : Functions) : Compiler :=
  ⟨settings, functions, [], 0, [], [], []⟩

/-! ## Changes -/

/-- Forgets every cached tree and output. -/
def clearCaches (c : Compiler) : Compiler := { c with trees := [], outputs := [] }

/-- Replaces the functions. -/
def withFunctions (c : Compiler) (functions : Functions) : Compiler :=
  { c with functions := functions }.clearCaches

/-- Replaces the settings. -/
def withSettings (c : Compiler) (settings : CompilerSettings) : Compiler :=
  { c with settings := settings }.clearCaches

/-- Replaces the tokens. -/
def withTokens (c : Compiler) (tokens : TokenSet) : Compiler :=
  { c with tokens := tokens, version := c.version + 1, outputs := [] }

/-- Forgets every figure. -/
def resetMetrics (c : Compiler) : Compiler := { c with counters := [] }

/-! ## Compiling -/

/-- Reads a template. -/
def parse (c : Compiler) (template : String) : Node × Compiler :=
  match Cache.findWhen? c.settings.caches template c.trees with
  | some tree => (tree, { c with counters := c.counters.bump "ast_cache_hits" })
  | none =>
    let tree := Sheet.parse template
    (tree,
      { c with
        trees := Cache.insertWhen c.settings.caches template tree c.trees
        counters := c.counters.countSome "parse_errors" (Sheet.faults template).length })

/-- Puts token values into a tree. -/
def substitute (c : Compiler) (tree : Node) (context : TokenSet) : Node × Compiler :=
  let (result, unresolved) := Style.substitute context c.tokens c.functions tree
  (result, { c with counters := c.counters.countSome "unresolved_references" unresolved })

/-- Writes a tree. -/
def serialize (c : Compiler) (tree : Node) : String := Sheet.serialize c.settings.layout tree

/-- The tree of a template with token values; the context comes before the tokens. -/
def compileTree (c : Compiler) (template : String) (context : TokenSet) : Node × Compiler :=
  let (tree, c) := c.parse template
  c.substitute tree context

/-- What the output for a template and a context is cached under. -/
def outputKey (c : Compiler) (template : String) (context : TokenSet) : OutputKey :=
  ⟨template, context.flatten, c.version⟩

/-- Compiles a template. -/
def compile (c : Compiler) (template : String) (context : TokenSet) : String × Compiler :=
  let key := c.outputKey template context
  match Cache.findWhen? c.settings.caches key c.outputs with
  | some out => (out, { c with counters := c.counters.bump "cache_hits" })
  | none =>
    let (tree, c) :=
      { c with counters := c.counters.bump "cache_misses" }.compileTree template context
    let out := c.serialize tree
    (out,
      { c with
        outputs := Cache.insertWhen c.settings.caches key out c.outputs
        counters := (c.counters.bump "compilations").lasted "total_compile_ms" "peak_compile_ms" })

/-! ## Reports -/

/-- The names that a template reads from the tokens. -/
def usedNames (c : Compiler) (template : String) : List String :=
  Style.usedNames c.functions (Sheet.parse template)

/-- The value of each name that a template reads; names without a value are left out. -/
def usedValues (c : Compiler) (template : String) (context : TokenSet) : Table Value :=
  let scope := Scope.layered [context, c.tokens]
  (c.usedNames template).filterMap (fun name => (scope name).map (fun value => (name, value)))

/-- The figures of a compiler. -/
def metrics (c : Compiler) : Counters :=
  let hits := c.counters.get "cache_hits"
  let misses := c.counters.get "cache_misses"
  [("cache_hit_rate", Counters.ratio hits (hits + misses) * 100.0),
    ("average_compile_ms",
      Counters.ratio (c.counters.get "total_compile_ms") (c.counters.get "compilations")),
    ("ast_cache_size", Float.ofNat c.trees.length),
    ("output_cache_size", Float.ofNat c.outputs.length)].foldl
    (fun t (name, value) => Table.insert name value t) c.counters

end Compiler

end Theming.Style
