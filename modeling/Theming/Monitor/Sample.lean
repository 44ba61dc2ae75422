import Theming.Decimal.Fixed
import Theming.Table
import Theming.Text.Lowercase
import Theming.Text.Search

set_option autoImplicit false

/-! # Samples

A sample is one value of a metric. Its unit and its kind are read off the name of the metric. A
snapshot holds the samples of all components, taken together. -/

namespace Theming.Monitor

/-! ## Kinds and units -/

/-- What a metric measures. -/
inductive Kind where
  | timing
  | memory
  | cpu
  | cache
  | throughput
  | errorRate
deriving Repr, DecidableEq, Inhabited

namespace Kind

/-- The name of a kind. -/
def name : Kind → String
  | .timing => "timing"
  | .memory => "memory"
  | .cpu => "cpu"
  | .cache => "cache"
  | .throughput => "throughput"
  | .errorRate => "error_rate"

/-- Words in the name of a metric that tell its kind; the first row with a word that occurs
    counts. -/
def words : List (Kind × List String) := [
  (.errorRate, ["error", "fail"]),
  (.timing, ["time", "duration", "_ms"]),
  (.memory, ["memory", "bytes"]),
  (.cpu, ["cpu", "usage"]),
  (.cache, ["cache", "hit", "miss"])]

/-- The kind of a metric, letter case set aside. -/
def ofMetric (metric : String) : Kind :=
  let lowered := Text.lowercase metric
  match words.find? (fun (_, ws) => ws.any (fun w => Text.contains w lowered)) with
  | some (kind, _) => kind
  | none => .throughput

end Kind

/-- The ending of the names of durations. -/
def durationEnding : String := "_ms"

/-- The name of the metric of the memory in use. -/
def memoryMetric : String := "memory_usage"

/-- The name of the metric of the processor time in use. -/
def cpuMetric : String := "cpu_usage"

/-- The unit of a metric, letter case set aside. -/
def unitOf (metric : String) : String :=
  let lowered := Text.lowercase metric
  let has (word : String) : Bool := Text.contains word lowered
  if Text.endsWith durationEnding.toList lowered.toList || has "time" || has "duration" then "ms"
  else if has "rate" || has "cpu" then "%"
  else if lowered = memoryMetric then "MB"
  else if has "memory" then "bytes"
  else "count"

/-! ## Samples and snapshots -/

/-- One value of a metric. -/
structure Sample where
  name : String
  value : Float
  unit : String
  kind : Kind
  /-- The component that the metric belongs to. -/
  component : Option String
deriving Repr, DecidableEq, Inhabited

/-- A sample with the unit and the kind that its name tells. -/
def Sample.ofValue (name : String) (value : Float) (component : Option String) : Sample :=
  ⟨name, value, unitOf name, Kind.ofMetric name, component⟩

/-- A sample of how long an operation took. -/
def Sample.ofDuration (operation : String) (duration : Float) : Sample :=
  ⟨operation ++ "_duration", duration, "ms", .timing, none⟩

/-- The figures of each component. -/
abbrev Components := Table (Table Float)

/-- What is known of the process. -/
structure Host where
  memory : Option Float
  cpu : Option Float
  threads : Option Nat
deriving Repr, DecidableEq, Inhabited

/-- A process of which nothing is known. -/
def Host.unknown : Host := ⟨none, none, none⟩

/-- Samples that were taken together. -/
structure Snapshot where
  samples : List Sample
  host : Host
deriving Repr, DecidableEq, Inhabited

namespace Snapshot

/-- A snapshot without samples. -/
def empty : Snapshot := ⟨[], Host.unknown⟩

/-- The samples of a component; its name stands before those of its metrics. -/
def samplesOf (component : String) (figures : Table Float) : List Sample :=
  figures.map (fun (name, value) =>
    Sample.ofValue (component ++ "_" ++ name) value (some component))

/-- The samples of the process. -/
def samplesOfHost (host : Host) : List Sample :=
  (host.memory.map (fun x => Sample.ofValue memoryMetric x none)).toList ++
    (host.cpu.map (fun x => Sample.ofValue cpuMetric x none)).toList

/-- The samples of all components in order, then those of the process. -/
def capture (components : Components) (host : Host) : Snapshot :=
  ⟨components.flatMap (fun (component, figures) => samplesOf component figures) ++
    samplesOfHost host, host⟩

end Snapshot

/-! ## Summaries -/

/-- What the samples of one metric come to. -/
structure Summary where
  count : Nat
  min : Float
  max : Float
  average : Float
  latest : Float
deriving Repr, DecidableEq, Inhabited

/-- The summary of a single value. -/
def Summary.single (value : Float) : Summary := ⟨1, value, value, value, value⟩

/-- Adds a value to a summary. -/
def Summary.add (s : Summary) (value : Float) : Summary :=
  let count := s.count + 1
  { count := count
    min := Decimal.smaller s.min value
    max := Decimal.larger s.max value
    average := s.average + (value - s.average) / Float.ofNat count
    latest := value }

/-- The summary of each metric among some samples. -/
def summarize (samples : List Sample) : Table Summary :=
  samples.foldl
    (fun t sample =>
      let summary := match Table.find? sample.name t with
        | some s => s.add sample.value
        | none => Summary.single sample.value
      Table.insert sample.name summary t)
    []

end Theming.Monitor
