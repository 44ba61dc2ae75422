import Theming.Monitor.State
import Theming.Style.Optimizer
import Theming.Style.Overlay
import Theming.Template.Loader
import Theming.Token.Themes

set_option autoImplicit false

/-! # Sessions

A session has one theme at a time. It brings the tokens of the theme to the parts that use them,
keeps what was compiled and optimized, and reports what it does to its monitor. Switching to a theme
that does not exist and settings that are refused change nothing. -/

namespace Theming

open Style (Compiler Optimizer Overlay)
open Template (Loader)

/-- What an optimized output depends on besides settings and functions. -/
structure OptimizedKey where
  template : String
  /-- The version of the tokens. -/
  version : Nat
  level : Sheet.Level
deriving Repr, DecidableEq

/-- The state of a session. -/
structure Session where
  settings : Settings
  engine : ThemeEngine
  loader : Loader
  compiler : Compiler
  optimizer : Optimizer
  overlay : Overlay
  monitor : Monitor
  /-- The name of the current theme. -/
  theme : Option String
  /-- The merged and resolved tokens of the current theme. -/
  tokens : TokenSet
  optimized : Cache OptimizedKey String
  counters : Counters

namespace Session

/-- What a switch of the theme is refused for. -/
inductive Refusal where
  | unknownTheme (name : String)
deriving Repr, DecidableEq

/-- What a refusal says. -/
def Refusal.message : Refusal → String
  | .unknownTheme name => "unknown theme: " ++ name

/-! ## Figures -/

/-- The figures of the session itself. -/
def ownMetrics (s : Session) : Counters :=
  let hits := s.counters.get "optimized_cache_hits"
  let misses := s.counters.get "optimized_cache_misses"
  [("optimized_cache_hit_rate", Counters.ratio hits (hits + misses) * 100.0),
    ("optimized_cache_size", Float.ofNat s.optimized.length),
    ("tokens", Float.ofNat s.tokens.paths.length),
    ("themes", Float.ofNat s.engine.themes.names.length)].foldl
    (fun t (name, value) => Table.insert name value t) s.counters

/-- The figures of each part. -/
def metrics (s : Session) : Monitor.Components :=
  Table.ofPairs [
    ("template_compiler", s.compiler.metrics),
    ("template_loader", s.loader.metrics),
    ("compiler_optimizer", s.optimizer.metrics),
    ("dynamic_style_engine", s.overlay.metrics),
    ("theme_manager", s.ownMetrics)]

/-- Forgets the figures of each part. Caches and the history of the monitor stay. -/
def resetMetrics (s : Session) : Session :=
  { s with
    compiler := s.compiler.resetMetrics
    optimizer := s.optimizer.resetMetrics
    overlay := s.overlay.resetMetrics
    loader := s.loader.resetMetrics
    counters := [] }

/-! ## Monitoring -/

/-- Turns sampling in the background on, with the figures of now. -/
def startMonitoring (s : Session) : Session :=
  { s with monitor := (s.monitor.publish s.metrics).turnOn }

/-- Turns sampling in the background off. -/
def stopMonitoring (s : Session) : Session := { s with monitor := s.monitor.turnOff }

/-- Tells the monitor of an operation, unless monitoring is disabled. A monitor that is sampling
    also gets the figures of now. -/
def note (s : Session) (operation : String) : Session :=
  if s.settings.monitor.enabled then
    let s := { s with monitor := s.monitor.record operation 0.0 true }
    if s.monitor.running then { s with monitor := s.monitor.publish s.metrics } else s
  else s

/-! ## Caches and tokens -/

/-- Forgets everything that was compiled, optimized, loaded or generated. -/
def clearCaches (s : Session) : Session :=
  { s with
    compiler := s.compiler.clearCaches
    optimizer := s.optimizer.clearCache
    overlay := s.overlay.clearCache
    loader := s.loader.clearCache
    optimized := [] }

/-- Brings new tokens to the parts that use them. -/
def withTokens (s : Session) (tokens : TokenSet) : Session :=
  { s with
    compiler := s.compiler.withTokens tokens
    loader := s.loader.withVariables tokens
    tokens := tokens }.clearCaches

/-- Builds the tokens of the current theme anew. -/
def rebuild (s : Session) : Session :=
  match s.theme with
  | none => s.clearCaches
  | some theme =>
    match s.engine.build theme with
    | (some tokens, engine) => { s with engine := engine }.withTokens tokens
    | (none, _) => s

/-! ## Themes -/

/-- The name that a theme is known by: the given one if there is a theme of exactly that name,
    otherwise its canonical spelling. -/
def canonicalName (s : Session) (name : String) : String :=
  if s.engine.themes.names.contains name then name else themeName name

/-- Switches to a theme. -/
def switch (s : Session) (name : String) : Except Refusal Session :=
  let canonical := s.canonicalName name
  match s.engine.build canonical with
  | (none, _) => .error (.unknownTheme name)
  | (some tokens, engine) =>
    let s := { s with engine := engine }.withTokens tokens
    let s := { s with theme := some canonical, counters := s.counters.bump "theme_switches" }
    .ok (s.note "theme_switch")

/-- Hands a new or replaced function to every part. -/
def handFunction (s : Session) (name : String) (f : ValueFunction) : Session :=
  let engine := s.engine.register name f
  { s with
    engine := engine
    compiler := s.compiler.withFunctions engine.functions
    loader := s.loader.withFunctions engine.functions }

/-- Adds or replaces a function for tokens and templates; the current theme is built anew. -/
def register (s : Session) (name : String) (f : ValueFunction) : Session :=
  (s.handFunction name f).rebuild

/-- A session without a theme. -/
def blank (settings : Settings) (themes : Themes) (store : Template.Store) : Session :=
  let engine := ThemeEngine.start themes settings.resolver.resolver
  { settings := settings
    engine := engine
    loader := Loader.start store engine.functions
    compiler := Compiler.start settings.compiler engine.functions
    optimizer := Optimizer.start settings.optimizer
    overlay := Overlay.start settings.overlay
    monitor := Monitor.start settings.monitor
    theme := none
    tokens := []
    optimized := []
    counters := [] }

/-- A session with the given settings, themes and templates. It starts with the theme of the
    settings, if there is one of that name. -/
def start (settings : Settings) (themes : Themes) (store : Template.Store) : Session :=
  let s := blank settings themes store
  let s := ((settings.theme.map s.switch).bind Except.toOption).getD s
  if settings.monitor.enabled && settings.monitor.startsAlone then s.startMonitoring else s

/-! ## Compiling -/

/-- Compiles a template; the context comes before the tokens of the theme. -/
def compile (s : Session) (template : String) (context : TokenSet) : String × Session :=
  let (out, compiler) := s.compiler.compile template context
  (out, { s with compiler := compiler }.note "compile")

/-- Compiles and optimizes a template. -/
def compileOptimized (s : Session) (template : String) (level : Sheet.Level) : String × Session :=
  let key : OptimizedKey := ⟨template, s.compiler.version, level⟩
  match Cache.findWhen? s.settings.optimizer.caches key s.optimized with
  | some out => (out, { s with counters := s.counters.bump "optimized_cache_hits" })
  | none =>
    let (tree, compiler) := s.compiler.compileTree template []
    let ((tree, _), optimizer) := s.optimizer.optimize tree level
    let out := compiler.serialize tree
    (out,
      { s with
        compiler := compiler
        optimizer := optimizer
        optimized := Cache.insertWhen s.settings.optimizer.caches key out s.optimized
        counters := s.counters.bump "optimized_cache_misses" }.note "compile_optimized")

/-- Loads a template by name and compiles it. One that is not there, or is empty, gives nothing. -/
def compileTemplate (s : Session) (name : String) (context : TokenSet) : String × Session :=
  let (template, loader) := s.loader.load name false
  let s := { s with loader := loader }
  if template.isEmpty then ("", s) else s.compile template context

/-- Compiles a template and writes behind it the rules that apply in the context. -/
def generate (s : Session) (template : String) (context : TokenSet) : String × Session :=
  let (out, overlay, compiler) := s.overlay.generate s.compiler template context
  (out, { s with overlay := overlay, compiler := compiler }.note "generate_dynamic")

/-! ## Settings -/

/-- Hands new settings to every part. -/
def handSettings (s : Session) (settings : Settings) : Session :=
  { s with
    settings := settings
    compiler := s.compiler.withSettings settings.compiler
    optimizer := s.optimizer.withSettings settings.optimizer
    overlay := s.overlay.withSettings settings.overlay
    monitor := s.monitor.withSettings settings.monitor
    engine := { s.engine with resolver := settings.resolver.resolver } }

/-- Replaces the settings and drops every cache. The current theme is built anew if the settings of
    the resolver have changed. -/
def withSettings (s : Session) (settings : Settings) : Except Settings.Refusal Session :=
  match settings.refusal? with
  | some refusal => .error refusal
  | none =>
    let changed := s.handSettings settings
    .ok (if settings.resolver ≠ s.settings.resolver then changed.rebuild else changed.clearCaches)

/-! ## Reports -/

/-- A report: the theme, the figures of each part, a summary of the monitor and the settings. It
    tells no times. -/
def report (s : Session) : Json :=
  .object [
    ("theme", (s.theme.map Json.string).getD .null),
    ("performance_metrics", Monitor.tableJson (Monitor.tableJson Json.ofFloat) s.metrics),
    ("monitor", s.monitor.overview),
    ("settings", s.settings.json)]

end Session

end Theming
