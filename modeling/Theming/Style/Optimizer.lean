import Theming.Cache
import Theming.Counters
import Theming.Settings.Basic

set_option autoImplicit false

/-! # The optimizer

Optimizes trees and caches the results by the shape of the tree and the level. -/

namespace Theming.Style

open Sheet (Node Kind Level Savings)

/-- What an optimization depends on: the nodes of the tree in document order, and the level. -/
structure ShapeKey where
  shape : List (Kind × Table String × Nat)
  level : Level
deriving Repr, DecidableEq

/-- The state of an optimizer. -/
structure Optimizer where
  settings : OptimizerSettings
  results : Cache ShapeKey (Node × Savings)
  counters : Counters
deriving Inhabited

namespace Optimizer

/-- An optimizer that has done nothing yet. -/
def start (settings : OptimizerSettings) : Optimizer := ⟨settings, [], []⟩

/-- Forgets every result. -/
def clearCache (o : Optimizer) : Optimizer := { o with results := [] }

/-- Replaces the settings. -/
def withSettings (o : Optimizer) (settings : OptimizerSettings) : Optimizer :=
  { o with settings := settings }.clearCache

/-- Forgets every figure. -/
def resetMetrics (o : Optimizer) : Optimizer := { o with counters := [] }

/-- Optimizes a tree. -/
def optimize (o : Optimizer) (tree : Node) (level : Level) : (Node × Savings) × Optimizer :=
  let key : ShapeKey := ⟨tree.signature, level⟩
  match Cache.findWhen? o.settings.caches key o.results with
  | some result => (result, { o with counters := o.counters.bump "cache_hits" })
  | none =>
    let result := Sheet.optimize level tree
    (result,
      { o with
        results := Cache.insertWhen o.settings.caches key result o.results
        counters :=
          (((o.counters.bump "optimizations").count "nodes_removed" result.2.removed).count
            "memory_saved" result.2.memory).lasted "total_optimize_ms" "peak_optimize_ms" })

/-- The figures of an optimizer. -/
def metrics (o : Optimizer) : Counters :=
  Table.insert "cache_size" (Float.ofNat o.results.length)
    (Table.insert "average_optimize_ms"
      (Counters.ratio (o.counters.get "total_optimize_ms") (o.counters.get "optimizations"))
      o.counters)

end Optimizer

end Theming.Style
