import Theming.Monitor.Operation
import Theming.Monitor.Threshold
import Theming.Settings.Json

set_option autoImplicit false

/-! # The monitor

A monitor takes snapshots of the figures that were published to it, keeps a limited number of
samples and snapshots, counts operations and tells its listeners of alerts. Sampling in the
background is known here only as being on or off. -/

namespace Theming

open Monitor (Alert Components Grade Host Kind Operation Sample Snapshot Summary Threshold)

/-- The state of a monitor. -/
structure Monitor where
  settings : MonitorSettings
  thresholds : Table Threshold
  /-- Kept samples, oldest first. -/
  samples : List Sample
  /-- Kept snapshots, oldest first. -/
  snapshots : List Snapshot
  operations : Table Operation
  /-- Statistics over all operations. -/
  totals : Operation
  alerts : Nat
  /-- The numbers of the listeners, in the order in which they came. -/
  listeners : List Nat
  /-- The number of the next listener. -/
  nextListener : Nat
  /-- The figures of the next snapshot. -/
  components : Components
  /-- Whether samples are taken in the background. -/
  running : Bool
deriving Inhabited

namespace Monitor

/-- The last entries of a list, at most a given number of them. -/
def keepLast {α : Type} (cap : Nat) (entries : List α) : List α :=
  entries.drop (entries.length - cap)

theorem length_keepLast_le {α : Type} (cap : Nat) (entries : List α) :
    (keepLast cap entries).length ≤ cap := by
  simp only [keepLast, List.length_drop]
  omega

theorem keepLast_suffix {α : Type} (cap : Nat) (entries : List α) :
    keepLast cap entries <:+ entries := List.drop_suffix _ _

/-- A monitor that has seen nothing yet. -/
def start (settings : MonitorSettings) : Monitor :=
  ⟨settings, usualThresholds, [], [], [], Operation.none, 0, [], 0, [], false⟩

/-! ## Sampling in the background -/

/-- Turns sampling on, unless monitoring is disabled. -/
def turnOn (m : Monitor) : Monitor := if m.settings.enabled then { m with running := true } else m

/-- Turns sampling off. -/
def turnOff (m : Monitor) : Monitor := { m with running := false }

/-- Replaces the settings. What is beyond the new limits is forgotten; sampling goes on unless
    monitoring is disabled now. -/
def withSettings (m : Monitor) (settings : MonitorSettings) : Monitor :=
  { m with
    settings := settings
    samples := keepLast settings.maxMetrics m.samples
    snapshots := keepLast settings.maxSnapshots m.snapshots
    running := m.running && settings.enabled }

/-! ## Samples -/

/-- Replaces the figures that the next snapshot shows. -/
def publish (m : Monitor) (components : Components) : Monitor := { m with components := components }

/-- Takes in a snapshot. Returns the alerts that it raises. -/
def ingest (m : Monitor) (snapshot : Snapshot) : List Alert × Monitor :=
  let alerts :=
    if m.settings.raisesAlerts then alertsFor m.thresholds snapshot.samples else []
  (alerts,
    { m with
      alerts := m.alerts + alerts.length
      samples := keepLast m.settings.maxMetrics (m.samples ++ snapshot.samples)
      snapshots := keepLast m.settings.maxSnapshots (m.snapshots ++ [snapshot]) })

/-- Who is told of which alerts, in order. -/
def deliveries (m : Monitor) (alerts : List Alert) : List (Nat × Alert) :=
  alerts.flatMap (fun alert => m.listeners.map (fun listener => (listener, alert)))

/-- Takes a snapshot of the published figures and of the process, if that is wanted. Returns the
    last snapshot that is kept and who is told of which alerts. -/
def sample (m : Monitor) (host : Host) : Snapshot × List (Nat × Alert) × Monitor :=
  let host := if m.settings.samplesHost then host else Host.unknown
  let (alerts, after) := m.ingest (Snapshot.capture m.components host)
  (after.snapshots.getLast?.getD Snapshot.empty, m.deliveries alerts, after)

/-! ## Thresholds and listeners -/

/-- Adds or replaces a threshold. -/
def withThreshold (m : Monitor) (t : Threshold) : Monitor :=
  { m with thresholds := Table.insert t.metric t m.thresholds }

/-- Removes the threshold of a metric; none if there is none. -/
def withoutThreshold (m : Monitor) (metric : String) : Option Monitor :=
  if Table.has metric m.thresholds then
    some { m with thresholds := Table.erase metric m.thresholds }
  else none

/-- The grade of a value. -/
def classify (m : Monitor) (metric : String) (value : Float) : Option Grade :=
  gradeIn m.thresholds metric value

/-- Adds a listener. Returns its number. -/
def listen (m : Monitor) : Nat × Monitor :=
  (m.nextListener,
    { m with listeners := m.listeners ++ [m.nextListener], nextListener := m.nextListener + 1 })

/-- Removes a listener; none if there is none of that number. -/
def unlisten (m : Monitor) (listener : Nat) : Option Monitor :=
  if m.listeners.contains listener then
    some { m with listeners := m.listeners.filter (· != listener) }
  else none

/-! ## Operations -/

/-- Records one run of an operation. -/
def record (m : Monitor) (name : String) (duration : Float) (success : Bool) : Monitor :=
  { m with
    operations := recordIn name duration success m.operations
    totals := m.totals.record duration success
    samples := keepLast m.settings.maxMetrics (m.samples ++ [Sample.ofDuration name duration]) }

/-- Forgets samples, snapshots, statistics and the number of alerts. -/
def clearHistory (m : Monitor) : Monitor :=
  { m with samples := [], snapshots := [], operations := [], totals := Operation.none, alerts := 0 }

/-! ## Reports -/

/-- The statistics of an operation in a report. -/
def operationJson (o : Operation) : Json :=
  .object [("count", Json.ofNat o.count), ("successes", Json.ofNat o.successes),
    ("failures", Json.ofNat o.failures), ("average_ms", Json.ofFloat o.average),
    ("peak_ms", Json.ofFloat o.peak), ("last_ms", Json.ofFloat o.last)]

/-- A summary in a report. -/
def summaryJson (s : Summary) : Json :=
  .object [("count", Json.ofNat s.count), ("min", Json.ofFloat s.min), ("max", Json.ofFloat s.max),
    ("average", Json.ofFloat s.average), ("latest", Json.ofFloat s.latest)]

/-- A sample in a report. -/
def sampleJson (s : Sample) : Json :=
  .object ([("name", .string s.name), ("value", Json.ofFloat s.value), ("unit", .string s.unit),
    ("kind", .string s.kind.name)] ++
      (s.component.map (fun c => ("component", Json.string c))).toList)

/-- A snapshot in a report. -/
def snapshotJson (s : Snapshot) : Json :=
  .object [("metrics", .array (s.samples.map sampleJson)),
    ("host", .object [
      ("memory_mb", (s.host.memory.map Json.ofFloat).getD .null),
      ("cpu_percent", (s.host.cpu.map Json.ofFloat).getD .null),
      ("threads", (s.host.threads.map Json.ofNat).getD .null)])]

/-- A threshold in a report. -/
def thresholdJson (t : Threshold) : Json :=
  .object [("metric_name", .string t.metric), ("warning", Json.ofFloat t.warning),
    ("critical", Json.ofFloat t.critical), ("comparison", .string t.comparison.sign)]

/-- How many snapshots a report shows. -/
def reportedSnapshots : Nat := 10

/-- A table in a report. -/
def tableJson {α : Type} (f : α → Json) (t : Table α) : Json :=
  .object (t.map (fun (name, value) => (name, f value)))

/-- A summary of what a monitor has seen. -/
def overview (m : Monitor) : Json :=
  .object [
    ("total_metrics", Json.ofNat m.samples.length),
    ("total_snapshots", Json.ofNat m.snapshots.length),
    ("alerts", Json.ofNat m.alerts),
    ("totals", operationJson m.totals),
    ("operations", tableJson operationJson m.operations),
    ("metric_summaries", tableJson summaryJson (summarize m.samples))]

/-- A report: the summary, the last snapshots, thresholds and settings. It tells no times. -/
def report (m : Monitor) : Json :=
  .object [
    ("performance_summary", m.overview),
    ("recent_snapshots", .array ((keepLast reportedSnapshots m.snapshots).map snapshotJson)),
    ("thresholds", tableJson thresholdJson m.thresholds),
    ("settings", m.settings.json)]

end Monitor

end Theming
