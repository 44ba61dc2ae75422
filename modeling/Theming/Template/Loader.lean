import Theming.Cache
import Theming.Counters
import Theming.Sheet.Reading
import Theming.Template.Import
import Theming.Template.Store
import Theming.Text.Lowercase
import Theming.Token.Evaluation

set_option autoImplicit false

/-! # Loading templates

A loader finds templates by name, among those registered with it first and then in its store, and
brings them into plain form: comments and superfluous blanks are dropped, imported templates are put
in place of their directives, and variables and calls can be replaced. Loaded texts are cached with
the names of what they import. -/

namespace Theming.Template

/-- A loaded text with the names of the templates that were put into it. -/
structure Loaded where
  text : String
  imports : List String
deriving Repr, DecidableEq, Inhabited

/-- The state of a loader. -/
structure Loader where
  store : Store
  /-- Templates that come before those of the store. -/
  registered : Table String
  /-- The values of the variables. -/
  bindings : TokenSet
  functions : Functions
  /-- Loaded texts by name and by whether variables were replaced. -/
  cache : Cache (String × Bool) Loaded
  counters : Counters
deriving Inhabited

/-- A summary of a template. -/
structure Info where
  name : String
  category : Option String
  length : Nat
  lines : Nat
  imports : List String
deriving Repr, DecidableEq

namespace Loader

/-- A loader over a store that has loaded nothing yet. -/
def start (store : Store) (functions : Functions) : Loader := ⟨store, [], [], functions, [], []⟩

/-! ## Finding templates -/

/-- The text under exactly a name. -/
def under? (l : Loader) (name : String) : Option String :=
  match Table.find? name l.registered with
  | some text => some text
  | none => (Table.find? name l.store).map (·.content)

/-- A name without what follows its last point, if something stands before the point. -/
def stem? (name : String) : Option String :=
  match name.toList.reverse.dropWhile (· != '.') with
  | [] => none
  | _ :: before => if before.isEmpty then none else some (String.ofList before.reverse)

/-- The text of a template as it was given; a name with an extension falls back to the name without
    it. -/
def raw? (l : Loader) (name : String) : Option String :=
  match l.under? name with
  | some text => some text
  | none => (stem? name).bind l.under?

/-- The text of a template as it was given, or the error for one that is not there. -/
def raw (l : Loader) (name : String) : Except StoreError String :=
  match l.raw? name with
  | some text => .ok text
  | none => .error (.notFound name)

/-! ## Loading -/

/-- What is put in place of a directive in a template. A template that imports itself loses the
    directive; a directive for a template that is not there stays. -/
def replacement (l : Loader) (name : String) : Part → List Char × Option String
  | .char c => ([c], none)
  | .directive spelling target =>
    if target = name then ([], none)
    else
      match l.raw? target with
      | some raw => ((Sheet.plainForm raw).toList, some target)
      | none => (spelling, none)

/-- Puts imported templates in place of their directives. Directives in what was imported stay. -/
def expand (l : Loader) (name : String) (text : String) : Loaded :=
  let results := (parts text.toList).map (l.replacement name)
  ⟨String.ofList (results.flatMap (·.1)), results.filterMap (·.2)⟩

/-- Replaces the variables of a text, then makes its calls. Tells whether a variable was not
    found. -/
def resolve (l : Loader) (text : String) : String × Bool :=
  let replaced := evaluate text l.bindings.scope l.functions .references
  (evaluateText replaced.value.display l.bindings.scope l.functions .functions,
    replaced.unresolved)

/-- Loads a template from its text, past the cache. Tells whether a variable was not found. -/
def prepare (l : Loader) (name raw : String) (resolves : Bool) : Loaded × Bool :=
  let expanded := l.expand name (Sheet.plainForm raw)
  if resolves then
    let (text, unresolved) := l.resolve expanded.text
    (⟨text, expanded.imports⟩, unresolved)
  else (expanded, false)

/-- Loads a template. -/
def tryLoad (l : Loader) (name : String) (resolves : Bool) : Except StoreError String × Loader :=
  match Cache.find? (name, resolves) l.cache with
  | some loaded => (.ok loaded.text, { l with counters := l.counters.bump "cache_hits" })
  | none =>
    match l.raw name with
    | .error e => (.error e, l)
    | .ok raw =>
      let (loaded, unresolved) := l.prepare name raw resolves
      (.ok loaded.text,
        { l with
          cache := Cache.insert (name, resolves) loaded l.cache
          counters :=
            ((l.counters.countSome "unresolved_references" unresolved.toNat).bump "loads").lasted
              "total_load_ms" "peak_load_ms" })

/-- Loads a template; one that is not there counts as empty. -/
def load (l : Loader) (name : String) (resolves : Bool) : String × Loader :=
  match l.tryLoad name resolves with
  | (.ok text, l) => (text, l)
  | (.error _, l) => ("", { l with counters := l.counters.bump "load_errors" })

/-! ## Cached texts -/

/-- Forgets the loaded texts of a template and of those that import it. -/
def invalidate (l : Loader) (name : String) : Loader :=
  { l with
    cache := l.cache.filter (fun ((cached, _), loaded) =>
      cached != name && !loaded.imports.contains name) }

/-- Forgets the loaded texts whose variables were replaced. -/
def dropResolved (l : Loader) : Loader :=
  { l with cache := l.cache.filter (fun ((_, resolved), _) => !resolved) }

/-- Forgets every loaded text. -/
def clearCache (l : Loader) : Loader := { l with cache := [] }

/-! ## Templates -/

/-- Registers a template; it comes before one of the same name in the store. -/
def register (l : Loader) (name content : String) : Loader :=
  { l.invalidate name with registered := Table.insert name content l.registered }

/-- Stores a template. An empty category stands for the default one. -/
def save (l : Loader) (name content category : String) : Except StoreError Loader :=
  (l.store.write name content category).map (fun store =>
    { l.invalidate name with store := store, registered := Table.erase name l.registered })

/-- Removes a template wherever it is; none if it is nowhere. -/
def delete (l : Loader) (name : String) : Option Loader :=
  if Table.has name l.registered || Table.has name l.store then
    some { l.invalidate name with
      registered := Table.erase name l.registered
      store := Table.erase name l.store }
  else none

/-- Forgets the registered templates and the loaded texts. -/
def clear (l : Loader) : Loader := { l with registered := [], cache := [] }

/-! ## Queries -/

/-- The names of all templates, in order. -/
def names (l : Loader) : List String :=
  Table.names (Table.ofPairs ((Table.names l.registered ++ Table.names l.store).map (·, ())))

/-- Whether a text contains another one, letter case set aside. -/
def mentions (needle text : String) : Bool := Text.contains needle (Text.lowercase text)

/-- The names of the templates that contain a text in their name or in their own text, letter case
    set aside. -/
def search (l : Loader) (query : String) : List String :=
  let needle := Text.lowercase query
  l.names.filter (fun name =>
    mentions needle name || ((l.raw? name).map (mentions needle)).getD false)

/-- The faults of a template. -/
def faults (l : Loader) (name : String) : Except StoreError (List Sheet.Fault) :=
  (l.raw name).map Sheet.faults

/-- A summary of a template. -/
def info? (l : Loader) (name : String) : Option Info :=
  (l.raw? name).map (fun raw =>
    let category := if Table.has name l.registered then none else l.store.category? name
    ⟨name, category, raw.toList.length, (Text.lines raw.toList).length, targets raw⟩)

/-! ## Variables and functions -/

/-- Replaces all variables. -/
def withVariables (l : Loader) (bindings : TokenSet) : Loader :=
  { l with bindings := bindings }.dropResolved

/-- Sets variables, one after the other. -/
def setVariables (l : Loader) (pairs : List (String × Value)) : Loader :=
  l.withVariables (pairs.foldl (fun set (path, value) => TokenSet.set path value set) l.bindings)

/-- Replaces the functions. -/
def withFunctions (l : Loader) (functions : Functions) : Loader :=
  { l with functions := functions }.clearCache

/-! ## Figures -/

/-- Forgets every figure. -/
def resetMetrics (l : Loader) : Loader := { l with counters := [] }

/-- The figures of a loader. -/
def metrics (l : Loader) : Counters :=
  [("average_load_ms",
      Counters.ratio (l.counters.get "total_load_ms") (l.counters.get "loads")),
    ("cache_size", Float.ofNat l.cache.length),
    ("templates", Float.ofNat l.names.length)].foldl
    (fun t (name, value) => Table.insert name value t) l.counters

end Loader

end Theming.Template
