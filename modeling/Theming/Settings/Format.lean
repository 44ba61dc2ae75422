import Theming.Settings.Basic

set_option autoImplicit false

/-! # Reading settings from records

Settings can be read from any format with records, truth values, numbers and texts. Each section is
a record. What is absent has its default; unknown fields are passed over. -/

namespace Theming.Settings

/-- How values of a format are read. -/
structure Format (φ : Type) where
  /-- The values of the named fields of a record, each absent or given. -/
  record? : List String → φ → Option (List (Option φ))
  flag? : φ → Option Bool
  real? : φ → Option Float
  natural? : φ → Option Nat
  /-- One word out of a closed list. -/
  word? : φ → Option String
  /-- A text, or a mark that there is none. -/
  text? : φ → Option (Option String)

namespace Format

variable {φ : Type}

/-- The value of a field that may be absent. -/
def orElse {α : Type} (usual : α) (read : φ → Option α) : Option φ → Option α
  | none => some usual
  | some value => read value

/-- Reads the compiler section. -/
def compiler? (f : Format φ) (value : φ) : Option CompilerSettings := do
  let usual : CompilerSettings := default
  match ← f.record? ["cache_enabled", "minify", "remove_comments"] value with
  | [caches, minify, removeComments] =>
    return ⟨← orElse usual.caches f.flag? caches, ← orElse usual.minify f.flag? minify,
      ← orElse usual.removeComments f.flag? removeComments⟩
  | _ => none

/-- Reads the optimizer section. -/
def optimizer? (f : Format φ) (value : φ) : Option OptimizerSettings := do
  let usual : OptimizerSettings := default
  let level? (value : φ) : Option Sheet.Level := (f.word? value).bind Sheet.Level.ofName?
  match ← f.record? ["level", "cache_optimizations"] value with
  | [level, caches] =>
    return ⟨← orElse usual.level level? level, ← orElse usual.caches f.flag? caches⟩
  | _ => none

/-- Reads the section on styles under conditions. -/
def overlay? (f : Format φ) (value : φ) : Option OverlaySettings := do
  let usual : OverlaySettings := default
  match ← f.record? ["enable_media_queries", "enable_caching"] value with
  | [mediaQueries, caches] =>
    return ⟨← orElse usual.mediaQueries f.flag? mediaQueries, ← orElse usual.caches f.flag? caches⟩
  | _ => none

/-- Reads the resolver section. -/
def resolver? (f : Format φ) (value : φ) : Option ResolverSettings := do
  let usual : ResolverSettings := default
  match ← f.record? ["max_passes", "enable_validation"] value with
  | [maxPasses, validates] =>
    return ⟨← orElse usual.maxPasses f.natural? maxPasses,
      ← orElse usual.validates f.flag? validates⟩
  | _ => none

/-- Reads the monitor section. -/
def monitor? (f : Format φ) (value : φ) : Option MonitorSettings := do
  let usual : MonitorSettings := default
  match ← f.record? ["enabled", "auto_monitoring", "monitoring_interval", "max_metrics_history",
      "max_snapshots_history", "enable_system_monitoring", "enable_performance_alerts"] value with
  | [enabled, startsAlone, interval, maxMetrics, maxSnapshots, samplesHost, raisesAlerts] =>
    return ⟨← orElse usual.enabled f.flag? enabled, ← orElse usual.startsAlone f.flag? startsAlone,
      ← orElse usual.interval f.real? interval, ← orElse usual.maxMetrics f.natural? maxMetrics,
      ← orElse usual.maxSnapshots f.natural? maxSnapshots,
      ← orElse usual.samplesHost f.flag? samplesHost,
      ← orElse usual.raisesAlerts f.flag? raisesAlerts⟩
  | _ => none

/-- Reads all sections. -/
def settings? (f : Format φ) (value : φ) : Option Settings := do
  match ← f.record? ["default_theme", "compiler", "optimizer", "dynamic", "monitor", "resolver"]
      value with
  | [theme, compiler, optimizer, overlay, monitor, resolver] =>
    return ⟨← orElse none f.text? theme, ← orElse default f.compiler? compiler,
      ← orElse default f.optimizer? optimizer, ← orElse default f.overlay? overlay,
      ← orElse default f.monitor? monitor, ← orElse default f.resolver? resolver⟩
  | _ => none

end Format

end Theming.Settings
