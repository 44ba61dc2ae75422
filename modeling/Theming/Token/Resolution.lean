import Theming.Token.Color
import Theming.Token.Evaluation

set_option autoImplicit false

/-! # Resolving token sets

Token sets may refer to themselves. Resolution evaluates every leaf against the set of the pass
before, until a pass changes nothing or the limit of passes is reached. Leaves from which a cycle of
references can be reached are left alone. -/

namespace Theming

/-! ## Dependencies and cycles -/

/-- Leaf paths with the paths that their texts refer to. -/
abbrev Dependencies := Table (List String)

/-- The text leaves of a set that refer to something in it. -/
def TokenSet.dependencies (set : TokenSet) (functions : Functions) : Dependencies :=
  (TokenSet.flatten set).filterMap fun (path, value) =>
    match value with
    | .str text =>
      let targets :=
        (Segment.referencedNames functions.contains text).filterMap (TokenSet.lookupPath? · set)
      if targets.isEmpty then none else some (path, targets)
    | _ => none

namespace Dependencies

/-- What a search for cycles knows about a leaf that it has come to. -/
inductive Mark where
  /-- What the leaf refers to is still being searched. -/
  | visiting
  /-- The search is through with the leaf; from a cyclic one a cycle can be reached. -/
  | done (cyclic : Bool)
deriving Repr, DecidableEq

/-- What a search knows. -/
abbrev Marks := Table Mark

/-- How many leaves a search has not come to. -/
def unmarked (graph : Dependencies) (marks : Marks) : Nat :=
  (Table.names graph).countP (fun path => !Table.has path marks)

theorem countP_insert_le (paths : List String) (path : String) (mark : Mark) (marks : Marks) :
    paths.countP (fun p => !Table.has p (Table.insert path mark marks)) ≤
      paths.countP (fun p => !Table.has p marks) := by
  refine List.countP_mono_left fun p _ h => ?_
  rw [Table.has_insert, Bool.not_or, Bool.and_eq_true] at h
  exact h.2

theorem unmarked_insert_le (graph : Dependencies) (path : String) (mark : Mark) (marks : Marks) :
    unmarked graph (Table.insert path mark marks) ≤ unmarked graph marks :=
  countP_insert_le _ path mark marks

/-- A mark for a leaf without one leaves fewer of them. -/
theorem unmarked_insert_lt {graph : Dependencies} {marks : Marks} {path : String}
    {targets : List String} (hfresh : Table.find? path marks = none)
    (hpath : Table.find? path graph = some targets) (mark : Mark) :
    unmarked graph (Table.insert path mark marks) < unmarked graph marks := by
  have hmem : path ∈ Table.names graph := Table.find?_isSome_iff.1 (by rw [hpath]; rfl)
  have hfree : Table.has path marks = false := by rw [Table.has, hfresh]; rfl
  obtain ⟨before, after, hsplit⟩ := List.append_of_mem hmem
  have hbefore := countP_insert_le before path mark marks
  have hafter := countP_insert_le after path mark marks
  unfold unmarked
  rw [hsplit, List.countP_append, List.countP_append,
    List.countP_cons_of_neg (by simp [Table.has_insert]),
    List.countP_cons_of_pos (by simp [hfree])]
  omega

/-- What a search comes to that starts with some marks. -/
structure Found (graph : Dependencies) (start : Marks) where
  /-- Whether a cycle can be reached. -/
  cyclic : Bool
  marks : Marks
  unmarked_le : unmarked graph marks ≤ unmarked graph start

/-- Searches from one leaf after the other, all of them. -/
def visitEach (graph : Dependencies) (bound : Nat)
    (visit : (marks : Marks) → unmarked graph marks < bound → String → Found graph marks)
    (marks : Marks) (hbound : unmarked graph marks < bound) : List String → Found graph marks
  | [] => ⟨false, marks, Nat.le_refl _⟩
  | path :: rest =>
    let first := visit marks hbound path
    let others :=
      visitEach graph bound visit first.marks (Nat.lt_of_le_of_lt first.unmarked_le hbound) rest
    ⟨first.cyclic || others.cyclic, others.marks, Nat.le_trans others.unmarked_le first.unmarked_le⟩
termination_by structural paths => paths

/-- Searches from a leaf, depth first. To come to a leaf that is still being searched closes a
    cycle; what is known of a leaf is not searched again. -/
def visit (graph : Dependencies) (marks : Marks) (path : String) : Found graph marks :=
  match hmark : Table.find? path marks with
  | some .visiting => ⟨true, marks, Nat.le_refl _⟩
  | some (.done cyclic) => ⟨cyclic, marks, Nat.le_refl _⟩
  | none =>
    match hpath : Table.find? path graph with
    | none => ⟨false, marks, Nat.le_refl _⟩
    | some targets =>
      have hlt := unmarked_insert_lt hmark hpath .visiting
      let below := visitEach graph (unmarked graph marks) (fun marks _ path => visit graph marks path)
        (Table.insert path .visiting marks) hlt targets
      ⟨below.cyclic, Table.insert path (.done below.cyclic) below.marks,
        Nat.le_trans (unmarked_insert_le ..)
          (Nat.le_trans below.unmarked_le (Nat.le_of_lt hlt))⟩
termination_by unmarked graph marks

/-- What is known after a search from some leaves, one after the other. -/
def search (graph : Dependencies) (paths : List String) : Marks :=
  paths.foldl (fun marks path => (visit graph marks path).marks) []

/-- The leaves on a cycle of references, and those from which one can be reached. -/
def cyclic (graph : Dependencies) : List String :=
  ((search graph (Table.names graph)).filter (fun (_, mark) => mark = .done true)).map (·.1)

end Dependencies

/-- The paths of a set that resolution leaves alone. -/
def TokenSet.cyclicPaths (set : TokenSet) (functions : Functions) : List String :=
  (set.dependencies functions).cyclic

/-! ## Validation -/

/-- A value that does not fit the name of its field. -/
structure Issue where
  path : String
  value : String
  message : String
deriving Repr, DecidableEq

/-- The last key of a dotted path. -/
def lastKey (path : String) : String := (TokenSet.keysOf path).getLast?.getD path

/-- Whether a path promises a color: its last key says so, or it lies in the `colors` section. -/
def isColorField (path : String) : Bool :=
  Text.contains "color" (Text.asciiLower (lastKey path)) ||
    Text.startsWith "colors.".toList (Text.asciiLower path).toList

/-- The resolved values that should be colors and are none. -/
def TokenSet.validate (set : TokenSet) : List Issue :=
  (TokenSet.flatten set).filterMap fun (path, value) =>
    let text := value.display
    if !(Segment.mayRefer text) && isColorField path && !(Color.isColor text) then
      some ⟨path, text, "invalid color value"⟩
    else none

/-! ## Resolution -/

/-- What a resolution did. -/
structure Report where
  passes : Nat
  converged : Bool
  /-- The leaves that still hold references. -/
  unresolved : List String
  issues : List Issue
deriving Repr, DecidableEq, Inhabited

/-- The report before anything was resolved. -/
def Report.initial : Report := ⟨0, false, [], []⟩

/-- How token sets are resolved. -/
structure Resolver where
  maxPasses : Nat
  validates : Bool
deriving Repr, DecidableEq, Inhabited

namespace Resolver

/-- The limit of passes unless one is given. -/
def defaultPasses : Nat := 10

/-- A resolver with a limit of passes; there is always at least one. -/
def withPasses (limit : Nat) (validates : Bool) : Resolver := ⟨max limit 1, validates⟩

/-- The resolver with the usual limit. -/
def standard (validates : Bool) : Resolver := ⟨defaultPasses, validates⟩

/-- The value of a leaf in the next pass. -/
def step (snapshot : TokenSet) (functions : Functions) (cyclic : List String) (path : String)
    (value : Value) : Value :=
  match value with
  | .str text =>
    if cyclic.contains path then value
    else (evaluate text snapshot.scope functions .all).value
  | _ => value

/-- Whether a pass would change a leaf. -/
def changes (snapshot : TokenSet) (functions : Functions) (cyclic : List String)
    (leaf : String × Value) : Bool :=
  !((step snapshot functions cyclic leaf.1 leaf.2).same leaf.2) && leaf.2.asString?.isSome

/-- One pass over a set. -/
def pass (functions : Functions) (cyclic : List String) (set : TokenSet) : TokenSet :=
  TokenSet.mapLeaves (step set functions cyclic) set

/-- Passes up to a limit. Returns the set, the number of passes and whether the last one changed
    nothing. -/
def run (functions : Functions) (cyclic : List String) :
    Nat → Nat → TokenSet → TokenSet × Nat × Bool
  | 0, passes, set => (set, passes, false)
  | left + 1, passes, set =>
    if (TokenSet.leaves set).any (changes set functions cyclic) then
      run functions cyclic left (passes + 1) (pass functions cyclic set)
    else (set, passes + 1, true)

/-- Puts the first text back into a leaf that still holds references. -/
def restoreLeaf (before : TokenSet) (path : String) (value : Value) : Value :=
  match value with
  | .str text => if Segment.mayRefer text then (before.get? path).getD value else value
  | _ => value

/-- Whether a leaf is a text that holds references. -/
def isPending (leaf : String × Value) : Bool :=
  match leaf.2 with
  | .str text => Segment.mayRefer text
  | _ => false

/-- Resolves a set. Nothing fails: what stays unresolved is in the report. Without convergence
    every leaf that still holds references gets its first text back. -/
def resolve (r : Resolver) (set : TokenSet) (functions : Functions) : TokenSet × Report :=
  let cyclic := set.cyclicPaths functions
  let (reached, passes, settled) := run functions cyclic r.maxPasses 0 set
  let converged := settled && cyclic.isEmpty
  let final := if converged then reached else TokenSet.mapLeaves (restoreLeaf set) reached
  let unresolved := ((TokenSet.leaves final).filter isPending).map (·.1)
  (final, ⟨passes, converged, unresolved, if r.validates then final.validate else []⟩)

end Resolver

end Theming
