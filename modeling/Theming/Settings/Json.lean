import Theming.Json.Record
import Theming.Json.Writer
import Theming.Settings.Format

set_option autoImplicit false

/-! # Settings in JSON

Sections are objects, or arrays with the fields in their order. -/

namespace Theming

/-! ## Reading -/

/-- A text that may be null. -/
def Json.textOrNull? : Json → Option (Option String)
  | .null => some none
  | .string s => some (some s)
  | _ => none

/-- How settings are read from JSON. -/
def Settings.Format.json : Settings.Format Json where
  record? names value := value.record? (names.map (fun name => [name]))
  flag? := Json.asBool?
  real? := Json.asFloat?
  natural? := Json.asNat?
  word? := Json.word?
  text? := Json.textOrNull?

/-! ## Writing -/

/-- The compiler section. -/
def CompilerSettings.json (s : CompilerSettings) : Json :=
  .object [("cache_enabled", .bool s.caches), ("minify", .bool s.minify),
    ("remove_comments", .bool s.removeComments)]

/-- The optimizer section. -/
def OptimizerSettings.json (s : OptimizerSettings) : Json :=
  .object [("level", .string s.level.name), ("cache_optimizations", .bool s.caches)]

/-- The section on styles under conditions. -/
def OverlaySettings.json (s : OverlaySettings) : Json :=
  .object [("enable_media_queries", .bool s.mediaQueries), ("enable_caching", .bool s.caches)]

/-- The monitor section. -/
def MonitorSettings.json (s : MonitorSettings) : Json :=
  .object [("enabled", .bool s.enabled), ("auto_monitoring", .bool s.startsAlone),
    ("monitoring_interval", Json.ofFloat s.interval),
    ("max_metrics_history", Json.ofNat s.maxMetrics),
    ("max_snapshots_history", Json.ofNat s.maxSnapshots),
    ("enable_system_monitoring", .bool s.samplesHost),
    ("enable_performance_alerts", .bool s.raisesAlerts)]

/-- The resolver section. -/
def ResolverSettings.json (s : ResolverSettings) : Json :=
  .object [("max_passes", Json.ofNat s.maxPasses), ("enable_validation", .bool s.validates)]

/-- All sections. -/
def Settings.json (s : Settings) : Json :=
  .object [("default_theme", (s.theme.map Json.string).getD .null),
    ("compiler", s.compiler.json), ("optimizer", s.optimizer.json), ("dynamic", s.overlay.json),
    ("monitor", s.monitor.json), ("resolver", s.resolver.json)]

end Theming
