import Theming.Decimal.Fixed
import Theming.Table

set_option autoImplicit false

/-! # Statistics of operations

How often an operation was done, with what success, and how long it took. -/

namespace Theming.Monitor

/-- Running statistics of an operation; durations are in milliseconds. -/
structure Operation where
  count : Nat
  successes : Nat
  failures : Nat
  average : Float
  peak : Float
  last : Float
deriving Repr, DecidableEq

namespace Operation

/-- The statistics of an operation that was never done. -/
def none : Operation := ⟨0, 0, 0, 0.0, 0.0, 0.0⟩

instance : Inhabited Operation := ⟨none⟩

/-- Adds one run. The average moves by its share of the difference. -/
def record (o : Operation) (duration : Float) (success : Bool) : Operation :=
  let count := o.count + 1
  { count := count
    successes := o.successes + success.toNat
    failures := o.failures + (!success).toNat
    average := o.average + (duration - o.average) / Float.ofNat count
    peak := Decimal.larger o.peak duration
    last := duration }

end Operation

/-- Adds one run to the statistics of a name. -/
def recordIn (name : String) (duration : Float) (success : Bool) (t : Table Operation) :
    Table Operation :=
  Table.insert name (((Table.find? name t).getD Operation.none).record duration success) t

end Theming.Monitor
