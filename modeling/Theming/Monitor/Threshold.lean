import Theming.Decimal.Shortest
import Theming.Json.Record
import Theming.Monitor.Sample

set_option autoImplicit false

/-! # Thresholds

A threshold grades the values of a metric. Grades from poor downwards raise alerts. -/

namespace Theming.Monitor

/-! ## Comparisons -/

/-- How a value is compared with a limit. -/
inductive Comparison where
  | greater
  | less
  | greaterEqual
  | lessEqual
  /-- The value is nearer to the limit than the distance of 1 to the next number. -/
  | equal
  | notEqual
deriving Repr, DecidableEq, Inhabited

namespace Comparison

/-- The sign of a comparison. -/
def sign : Comparison → String
  | .greater => ">"
  | .less => "<"
  | .greaterEqual => ">="
  | .lessEqual => "<="
  | .equal => "=="
  | .notEqual => "!="

/-- The comparison of a sign. -/
def ofSign? (sign : String) : Option Comparison :=
  [.greater, .less, .greaterEqual, .lessEqual, .equal, .notEqual].find?
    (fun c => Comparison.sign c = sign)

/-- Reads a comparison by its sign. -/
def ofJson? (json : Json) : Option Comparison := json.word?.bind ofSign?

/-- The distance from 1 to the next floating-point number. -/
def tolerance : Float := Float.ofBits 0x3CB0000000000000

/-- Whether a value compares to a limit. -/
def holds (value limit : Float) : Comparison → Bool
  | .greater => limit < value
  | .less => value < limit
  | .greaterEqual => limit ≤ value
  | .lessEqual => value ≤ limit
  | .equal => (value - limit).abs < tolerance
  | .notEqual => tolerance ≤ (value - limit).abs

end Comparison

/-! ## Grades -/

/-- How good a value is. -/
inductive Grade where
  | excellent
  | good
  | acceptable
  | poor
  | critical
deriving Repr, DecidableEq, Inhabited

namespace Grade

/-- The name of a grade. -/
def name : Grade → String
  | .excellent => "excellent"
  | .good => "good"
  | .acceptable => "acceptable"
  | .poor => "poor"
  | .critical => "critical"

/-- Whether a grade raises an alert. -/
def alarms : Grade → Bool
  | .poor | .critical => true
  | _ => false

end Grade

/-! ## Thresholds -/

/-- The limits of a metric. -/
structure Threshold where
  metric : String
  warning : Float
  critical : Float
  comparison : Comparison
deriving Repr, DecidableEq, Inhabited

namespace Threshold

/-- The grade of a value. Where it crosses no limit, the share of the warning limit counts. -/
def grade (t : Threshold) (value : Float) : Grade :=
  if t.comparison.holds value t.critical then .critical
  else if t.comparison.holds value t.warning then .poor
  else if t.warning * 0.8 < value then .acceptable
  else if t.warning * 0.6 < value then .good
  else .excellent

/-- Whether a threshold is for a metric: one of its name, or of its name behind that of a component
    and an underscore. -/
def appliesTo (t : Threshold) (metric : String) : Bool :=
  metric == t.metric ||
    match Text.dropSuffix? t.metric.toList metric.toList with
    | some before => Text.endsWith ['_'] before
    | none => false

end Threshold

/-- The thresholds that a monitor starts with. -/
def usualThresholds : Table Threshold :=
  Table.ofPairs ([
    ⟨"response_time", 100.0, 500.0, .greater⟩,
    ⟨memoryMetric, 100.0, 500.0, .greater⟩,
    ⟨cpuMetric, 70.0, 90.0, .greater⟩,
    ⟨"cache_hit_rate", 80.0, 60.0, .less⟩,
    ⟨"throughput", 100.0, 50.0, .less⟩].map (fun (t : Threshold) => (t.metric, t)))

/-- The grade of a value by the first threshold that is for the metric. -/
def gradeIn (thresholds : Table Threshold) (metric : String) (value : Float) : Option Grade :=
  let limits := thresholds.map (·.2)
  (limits.find? (fun t => t.appliesTo metric)).map (fun t => t.grade value)

/-! ## Alerts -/

/-- A sample with a grade that raises an alert. -/
structure Alert where
  grade : Grade
  metric : String
  value : Float
  unit : String
  warning : Float
  critical : Float
deriving Repr, DecidableEq, Inhabited

/-- What an alert says. -/
def Alert.message (a : Alert) : String :=
  a.metric ++ " is " ++ Decimal.text a.value ++ a.unit ++ " (warning " ++ Decimal.text a.warning ++
    ", critical " ++ Decimal.text a.critical ++ ")"

/-- The alert that a threshold raises for a sample, if it does. -/
def Threshold.alert? (t : Threshold) (sample : Sample) : Option Alert :=
  let grade := t.grade sample.value
  if t.appliesTo sample.name && grade.alarms then
    some ⟨grade, sample.name, sample.value, sample.unit, t.warning, t.critical⟩
  else none

/-- The alerts for some samples: for each sample those of all thresholds in order. -/
def alertsFor (thresholds : Table Threshold) (samples : List Sample) : List Alert :=
  samples.flatMap (fun sample => thresholds.filterMap (fun (_, t) => t.alert? sample))

end Theming.Monitor
