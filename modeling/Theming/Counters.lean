import Theming.Table

set_option autoImplicit false

/-! # Counters

Named figures that the parts of the library keep about their work. Time is not measured here: a
figure of a duration is kept under its name and stays zero. -/

namespace Theming

/-- Figures by name. -/
abbrev Counters := Table Float

namespace Counters

/-- A figure; zero if it was never touched. -/
def get (name : String) (c : Counters) : Float := (Table.find? name c).getD 0.0

/-- Adds to a figure. -/
def add (name : String) (amount : Float) (c : Counters) : Counters :=
  Table.insert name (get name c + amount) c

/-- Adds one to a figure. -/
def bump (name : String) (c : Counters) : Counters := add name 1.0 c

/-- Adds a number of things to a figure. -/
def count (name : String) (n : Nat) (c : Counters) : Counters := add name (Float.ofNat n) c

/-- Adds a number of things to a figure, if there are any. -/
def countSome (name : String) (n : Nat) (c : Counters) : Counters :=
  if n = 0 then c else count name n c

/-- Keeps the larger of a figure and a value; the first value is kept as it is. -/
def keepLargest (name : String) (value : Float) (c : Counters) : Counters :=
  match Table.find? name c with
  | none => Table.insert name value c
  | some old => if old < value then Table.insert name value c else c

/-- Notes a duration under the names of its total and its peak. -/
def lasted (total peak : String) (c : Counters) : Counters :=
  keepLargest peak 0.0 (add total 0.0 c)

/-- A quotient; zero if there is nothing to divide by. -/
def ratio (part whole : Float) : Float := if whole == 0.0 then 0.0 else part / whole

end Counters

end Theming
