import Theming.Decimal.Fixed
import Theming.Decimal.Shortest
import Theming.Sheet.Layout
import Theming.Sheet.Optimization
import Theming.Token.Resolution

set_option autoImplicit false

/-! # Settings

The settings of every part of the library, section by section, with their defaults. -/

namespace Theming

/-! ## Sections -/

/-- Settings of the template compiler. -/
structure CompilerSettings where
  caches : Bool
  minify : Bool
  removeComments : Bool
deriving Repr, DecidableEq

instance : Inhabited CompilerSettings := ⟨⟨true, true, true⟩⟩

/-- How the compiler writes stylesheets. -/
def CompilerSettings.layout (s : CompilerSettings) : Sheet.Layout := ⟨s.minify, s.removeComments⟩

/-- Settings of the optimizer. -/
structure OptimizerSettings where
  level : Sheet.Level
  caches : Bool
deriving Repr, DecidableEq

instance : Inhabited OptimizerSettings := ⟨⟨.advanced, true⟩⟩

/-- Settings of the styles that are added under conditions. -/
structure OverlaySettings where
  mediaQueries : Bool
  caches : Bool
deriving Repr, DecidableEq

instance : Inhabited OverlaySettings := ⟨⟨true, true⟩⟩

/-- Settings of the resolution of tokens. -/
structure ResolverSettings where
  maxPasses : Nat
  validates : Bool
deriving Repr, DecidableEq

instance : Inhabited ResolverSettings := ⟨⟨Resolver.defaultPasses, false⟩⟩

/-- The resolver of the settings. -/
def ResolverSettings.resolver (s : ResolverSettings) : Resolver :=
  Resolver.withPasses s.maxPasses s.validates

/-- Settings of the performance monitor. -/
structure MonitorSettings where
  enabled : Bool
  /-- Whether sampling starts with the session. -/
  startsAlone : Bool
  /-- Seconds between two samples. -/
  interval : Float
  maxMetrics : Nat
  maxSnapshots : Nat
  samplesHost : Bool
  raisesAlerts : Bool
deriving Repr, DecidableEq

/-- The interval between samples unless one is given, in seconds. -/
def MonitorSettings.defaultInterval : Nat := 5

instance : Inhabited MonitorSettings :=
  ⟨⟨true, false, Float.ofNat MonitorSettings.defaultInterval, 10000, 1000, true, true⟩⟩

/-! ## The sampling interval -/

namespace MonitorSettings

/-- The shortest interval between samples, in seconds. -/
def minInterval : Float := 0.001

/-- The longest interval between samples, in seconds: one day. -/
def maxInterval : Float := 86400.0

/-- Whether the interval between samples is accepted. -/
def intervalInRange (s : MonitorSettings) : Bool :=
  Decimal.within minInterval maxInterval s.interval

/-- Nanoseconds in a second. -/
def nanosPerSecond : Nat := 1000000000

/-- A number of seconds in whole nanoseconds; a half goes to the even neighbour. -/
def nanos (seconds : Float) : Nat :=
  let b := Decimal.Binary.ofFloat seconds
  Decimal.roundDiv (b.num * nanosPerSecond) b.den

/-- The interval between samples in nanoseconds; the default stands in for one that is not
    accepted. -/
def intervalNanos (s : MonitorSettings) : Nat :=
  if s.intervalInRange then nanos s.interval else defaultInterval * nanosPerSecond

end MonitorSettings

/-! ## All sections -/

/-- The settings of the whole library. -/
structure Settings where
  /-- The theme that a session starts with. -/
  theme : Option String
  compiler : CompilerSettings
  optimizer : OptimizerSettings
  overlay : OverlaySettings
  monitor : MonitorSettings
  resolver : ResolverSettings
deriving Repr, DecidableEq, Inhabited

namespace Settings

/-- What settings are refused for. -/
inductive Refusal where
  /-- The sampling interval is out of range. -/
  | badInterval (seconds : Float)
deriving Repr, DecidableEq

/-- What a refusal says. -/
def Refusal.message : Refusal → String
  | .badInterval seconds =>
    "monitoring_interval must be between " ++ Decimal.text MonitorSettings.minInterval ++ " and " ++
      Decimal.text MonitorSettings.maxInterval ++ " seconds, got " ++ Decimal.text seconds

/-- What settings are refused for, if they are. -/
def refusal? (s : Settings) : Option Refusal :=
  if s.monitor.intervalInRange then none else some (.badInterval s.monitor.interval)

/-- Turns every cache on or off. -/
def withCaches (enabled : Bool) (s : Settings) : Settings :=
  { s with
    compiler := { s.compiler with caches := enabled }
    optimizer := { s.optimizer with caches := enabled }
    overlay := { s.overlay with caches := enabled } }

end Settings

end Theming
