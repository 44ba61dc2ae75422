import Theming.Settings.Format
import Theming.Toml.Reading
import Theming.Toml.Writer

set_option autoImplicit false

/-! # Settings in TOML

A text has a section for each part of the library. It is refused if it is no TOML, if a field has a
value of the wrong kind, or if the settings are out of range. -/

namespace Theming

/-! ## Reading -/

namespace Toml

/-- The values of the named fields of a record: a table, an array with the fields in their order, or
    a date, which has none of them. -/
def record? (names : List String) : Toml → Option (List (Option Toml))
  | .table _ entries => some (names.map (fun name => Table.find? name entries))
  | .array items => some (names.mapIdx (fun i _ => items[i]?))
  | .tables earlier last =>
    some (names.mapIdx (fun i _ => ((earlier ++ [last])[i]?).map (.table .header)))
  | .date => some (names.map (fun _ => none))
  | _ => none

/-- A truth value. -/
def asBool? : Toml → Option Bool
  | .boolean b => some b
  | _ => none

/-- A number as a floating-point number. -/
def asFloat? : Toml → Option Float
  | .float x => some x
  | .integer n => some (Float.ofInt n)
  | _ => none

/-- A natural number. -/
def asNat? : Toml → Option Nat
  | .integer n => if 0 ≤ n then some n.toNat else none
  | _ => none

/-- Whether a value holds nothing. -/
def isEmpty : Toml → Bool
  | .table _ entries => entries.isEmpty
  | .array items => items.isEmpty
  | _ => false

/-- One word out of a closed list: a text, or a table whose only entry has that name and holds
    nothing. -/
def word? : Toml → Option String
  | .string s => some s
  | .table _ [(name, value)] => if value.isEmpty then some name else none
  | _ => none

/-- A text. -/
def asString? : Toml → Option String
  | .string s => some s
  | _ => none

end Toml

namespace Settings

/-- How settings are read from TOML. -/
def Format.toml : Format Toml where
  record? := Toml.record?
  flag? := Toml.asBool?
  real? := Toml.asFloat?
  natural? := Toml.asNat?
  word? := Toml.word?
  text? value := value.asString?.map some

/-- What a text is refused for. -/
inductive TextFault where
  /-- It cannot be read as settings. -/
  | unreadable
  | refused (refusal : Refusal)
deriving Repr, DecidableEq

/-- Reads settings from text. -/
def readToml (text : String) : Except TextFault Settings :=
  match (Toml.read? text).bind (fun entries => Format.toml.settings? (.table .header entries)) with
  | none => .error .unreadable
  | some settings =>
    match settings.refusal? with
    | some refusal => .error (.refused refusal)
    | none => .ok settings

/-! ## Writing -/

/-- A line with a key and a value. -/
def tomlLine (key value : String) : String := key ++ " = " ++ value ++ "\n"

/-- A line with a key and a truth value. -/
def tomlFlag (key : String) (b : Bool) : String := tomlLine key (if b then "true" else "false")

/-- A line with a key and a natural number. -/
def tomlNat (key : String) (n : Nat) : String := tomlLine key (toString n)

/-- A section: its header and its lines. -/
def tomlSection (name : String) (lines : List String) : String :=
  "[" ++ name ++ "]\n" ++ String.join lines

/-- Settings as text: the theme, if there is one, and each section, with blank lines between. -/
def toml (s : Settings) : String :=
  "\n".intercalate
    ((s.theme.map (fun name => tomlLine "default_theme" (Toml.writeString name))).toList
    ++ [
    tomlSection "compiler" [
      tomlFlag "cache_enabled" s.compiler.caches,
      tomlFlag "minify" s.compiler.minify,
      tomlFlag "remove_comments" s.compiler.removeComments],
    tomlSection "optimizer" [
      tomlLine "level" (Toml.writeString s.optimizer.level.name),
      tomlFlag "cache_optimizations" s.optimizer.caches],
    tomlSection "dynamic" [
      tomlFlag "enable_media_queries" s.overlay.mediaQueries,
      tomlFlag "enable_caching" s.overlay.caches],
    tomlSection "monitor" [
      tomlFlag "enabled" s.monitor.enabled,
      tomlFlag "auto_monitoring" s.monitor.startsAlone,
      tomlLine "monitoring_interval" (Toml.writeFloat s.monitor.interval),
      tomlNat "max_metrics_history" s.monitor.maxMetrics,
      tomlNat "max_snapshots_history" s.monitor.maxSnapshots,
      tomlFlag "enable_system_monitoring" s.monitor.samplesHost,
      tomlFlag "enable_performance_alerts" s.monitor.raisesAlerts],
    tomlSection "resolver" [
      tomlNat "max_passes" s.resolver.maxPasses,
      tomlFlag "enable_validation" s.resolver.validates]])

end Settings

end Theming
