import Theming.Proofs.Session.Runs
import Theming.Proofs.Token.ThemeNames

set_option autoImplicit false

/-! # Coherence of a session

The tokens of a session are kept twice, in the session and in its compiler, and depend on the theme,
the functions and the settings of the resolver, each of which changes on its own. Whatever is done
with a session, they are those of its current theme (`Session.Coherent`).

Main statement: `Session.orderly_run`. -/

namespace Theming

/-! ## The tokens of a theme -/

/-- The tokens of a theme under a resolver and functions, if there is such a theme: its set laid
    over the base and resolved. -/
def Themes.resolved? (themes : Themes) (resolver : Resolver) (functions : Functions)
    (name : String) : Option TokenSet :=
  (themes.find? name).map
    (fun set => (resolver.resolve (TokenSet.merge themes.baseSet set) functions).1)

theorem Themes.resolved?_isSome_iff (themes : Themes) (resolver : Resolver) (functions : Functions)
    (name : String) :
    (themes.resolved? resolver functions name).isSome ↔ (themes.find? name).isSome := by
  rw [resolved?, Option.isSome_map]

/-- Building a theme changes nothing but the report, and nothing at all if there is no such
    theme. -/
theorem ThemeEngine.build_cases (engine : ThemeEngine) (name : String) :
    (engine.themes.resolved? engine.resolver engine.functions name = none ∧
        engine.build name = (none, engine)) ∨
      ∃ tokens report, engine.themes.resolved? engine.resolver engine.functions name = some tokens ∧
        engine.build name = (some tokens, { engine with report := report }) := by
  unfold build Themes.resolved?
  cases engine.themes.find? name with
  | none => exact Or.inl ⟨rfl, rfl⟩
  | some set => exact Or.inr ⟨_, _, rfl, rfl⟩

namespace Session

/-! ## Coherent sessions -/

/-- The parts of a session agree on its themes, settings and functions. -/
structure Wired (themes : Themes) (s : Session) : Prop where
  engine : s.engine.themes = themes
  resolver : s.engine.resolver = s.settings.resolver.resolver
  settings : s.compiler.settings = s.settings.compiler
  functions : s.compiler.functions = s.engine.functions

/-- The tokens of the current theme under the settings and functions of now; none without a theme. -/
def expected (themes : Themes) (s : Session) : Option TokenSet :=
  match s.theme with
  | none => some []
  | some theme => themes.resolved? s.settings.resolver.resolver s.engine.functions theme

/-- The tokens are those of the current theme, which exists, and the compiler has the same. -/
structure Coherent (themes : Themes) (s : Session) : Prop extends Wired themes s where
  tokens : s.expected themes = some s.tokens
  compiled : s.compiler.tokens = s.tokens

variable {themes : Themes} {s : Session}

theorem Coherent.congr {s' : Session} (h : Coherent themes s) (hsame : Unmoved s s') :
    Coherent themes s' where
  engine := by rw [hsame.engine, h.engine]
  resolver := by rw [hsame.engine, hsame.settings, h.resolver]
  settings := by rw [hsame.compiler.settings, hsame.settings, h.settings]
  functions := by rw [hsame.compiler.functions, hsame.engine, h.functions]
  tokens := by
    rw [expected, hsame.theme, hsame.settings, hsame.engine, hsame.tokens]
    exact h.tokens
  compiled := by rw [hsame.compiler.tokens, hsame.tokens, h.compiled]

theorem Coherent.none_of_theme (h : Coherent themes s) (htheme : s.theme = none) :
    s.tokens = [] ∧ s.compiler.tokens = [] := by
  have htokens := h.tokens
  rw [expected, htheme] at htokens
  have hempty : s.tokens = [] := (Option.some.inj htokens).symm
  exact ⟨hempty, h.compiled.trans hempty⟩

/-- The current theme is one of the themes. -/
theorem Coherent.exists_of_theme (h : Coherent themes s) {theme : String}
    (htheme : s.theme = some theme) : (themes.find? theme).isSome := by
  have htokens : themes.resolved? s.settings.resolver.resolver s.engine.functions theme =
      some s.tokens := by
    have hexpected := h.tokens
    rwa [expected, htheme] at hexpected
  rw [← themes.resolved?_isSome_iff s.settings.resolver.resolver s.engine.functions, htokens]
  rfl

/-! ## Building the current theme -/

/-- The session with the report and the tokens of a theme that was built. -/
def built (s : Session) (report : Report) (tokens : TokenSet) : Session :=
  { s with engine := { s.engine with report := report } }.withTokens tokens

theorem Wired.resolved?_eq (h : Wired themes s) (name : String) :
    s.engine.themes.resolved? s.engine.resolver s.engine.functions name =
      themes.resolved? s.settings.resolver.resolver s.engine.functions name := by
  rw [h.engine, h.resolver]

/-- Without a theme there is nothing to build; a theme that there is gets its tokens of now. -/
theorem rebuild_cases (h : Wired themes s)
    (hsome : ∀ theme, s.theme = some theme → (themes.find? theme).isSome) :
    (s.theme = none ∧ s.rebuild = s.clearCaches) ∨
      ∃ theme tokens report, s.theme = some theme ∧
        themes.resolved? s.settings.resolver.resolver s.engine.functions theme = some tokens ∧
        s.rebuild = s.built report tokens := by
  cases htheme : s.theme with
  | none =>
    left
    refine ⟨rfl, ?_⟩
    rw [rebuild, htheme]
  | some theme =>
    right
    have hexists := hsome theme htheme
    rw [← themes.resolved?_isSome_iff s.settings.resolver.resolver s.engine.functions,
      ← h.resolved?_eq] at hexists
    obtain ⟨hnone, -⟩ | ⟨tokens, report, htokens, hbuild⟩ := s.engine.build_cases theme
    · rw [hnone] at hexists
      cases hexists
    · refine ⟨theme, tokens, report, rfl, (h.resolved?_eq theme).symm.trans htokens, ?_⟩
      rw [rebuild, htheme]
      dsimp only
      rw [hbuild, built, htheme]

/-- Whatever became stale is set right by building the theme anew. -/
theorem coherent_rebuild (h : Wired themes s)
    (hnone : s.theme = none → s.tokens = [] ∧ s.compiler.tokens = [])
    (hsome : ∀ theme, s.theme = some theme → (themes.find? theme).isSome) :
    Coherent themes s.rebuild := by
  obtain ⟨htheme, hafter⟩ | ⟨theme, tokens, report, htheme, htokens, hafter⟩ :=
    rebuild_cases h hsome
  · obtain ⟨hempty, hcompiled⟩ := hnone htheme
    rw [hafter]
    refine ⟨⟨h.engine, h.resolver, h.settings, h.functions⟩, ?_, hcompiled.trans hempty.symm⟩
    show s.expected themes = some s.tokens
    rw [expected, htheme, hempty]
  · rw [hafter]
    refine ⟨⟨h.engine, h.resolver, h.settings, h.functions⟩, ?_, rfl⟩
    show (match s.theme with
      | none => some []
      | some theme =>
        themes.resolved? s.settings.resolver.resolver s.engine.functions theme) = some tokens
    rw [htheme]
    exact htokens

/-! ## Changes -/

theorem Coherent.wired_handFunction (h : Coherent themes s) (name : String) (f : ValueFunction) :
    Wired themes (s.handFunction name f) := ⟨h.engine, h.resolver, h.settings, rfl⟩

theorem Coherent.wired_handSettings (h : Coherent themes s) (settings : Settings) :
    Wired themes (s.handSettings settings) := ⟨h.engine, rfl, rfl, h.functions⟩

theorem coherent_register (h : Coherent themes s) (name : String) (f : ValueFunction) :
    Coherent themes (s.register name f) :=
  coherent_rebuild (h.wired_handFunction name f) h.none_of_theme
    (fun _ htheme => h.exists_of_theme htheme)

theorem coherent_withSettings (h : Coherent themes s) {settings : Settings} {s' : Session}
    (hok : s.withSettings settings = .ok s') : Coherent themes s' := by
  unfold withSettings at hok
  split at hok
  · cases hok
  · injection hok with hok
    subst hok
    have hwired := h.wired_handSettings settings
    split
    · exact coherent_rebuild hwired h.none_of_theme (fun _ htheme => h.exists_of_theme htheme)
    · next hsame =>
      -- The tokens stay: nothing that they depend on has changed.
      have hresolver : settings.resolver = s.settings.resolver := Classical.not_not.1 hsame
      refine ⟨⟨hwired.engine, hwired.resolver, hwired.settings, hwired.functions⟩, ?_, h.compiled⟩
      have htokens := h.tokens
      unfold expected at htokens ⊢
      rw [← hresolver] at htokens
      exact htokens

/-! ## Switching -/

theorem canonicalName_eq (h : s.engine.themes = themes) (name : String) :
    s.canonicalName name = if name ∈ themes.names then name else themeName name := by
  rw [canonicalName, h]
  simp only [List.contains_iff_mem]

/-- The name that is looked for is found exactly if the given one or its canonical spelling is
    that of a theme. -/
theorem find?_canonicalName_isSome_iff (h : s.engine.themes = themes) (name : String) :
    (themes.find? (s.canonicalName name)).isSome ↔
      name ∈ themes.names ∨ themeName name ∈ themes.names := by
  rw [canonicalName_eq h]
  split
  · next hmem => exact iff_of_true ((themes.find?_isSome_iff name).2 (Or.inl hmem)) (Or.inl hmem)
  · next hmem => rw [themes.find?_themeName_isSome_iff, or_iff_right hmem]

/-- The session with a theme that was built and switched to. -/
def switched (s : Session) (report : Report) (tokens : TokenSet) (name : String) : Session :=
  Session.note { s.built report tokens with
    theme := some name
    counters := s.counters.bump "theme_switches" } "theme_switch"

/-- A switch to a theme that there is brings its tokens. Any other is refused, and trying to build
    the theme has changed nothing. -/
theorem switch_cases (h : Wired themes s) (name : String) :
    (themes.find? (s.canonicalName name) = none ∧
        s.engine.build (s.canonicalName name) = (none, s.engine) ∧
        s.switch name = .error (.unknownTheme name)) ∨
      ∃ tokens report, themes.resolved? s.settings.resolver.resolver s.engine.functions
          (s.canonicalName name) = some tokens ∧
        s.switch name = .ok (s.switched report tokens (s.canonicalName name)) := by
  obtain ⟨hnone, hbuild⟩ | ⟨tokens, report, htokens, hbuild⟩ :=
    s.engine.build_cases (s.canonicalName name)
  · left
    refine ⟨?_, hbuild, ?_⟩
    · rwa [h.resolved?_eq, Themes.resolved?, Option.map_eq_none_iff] at hnone
    · unfold switch
      dsimp only
      rw [hbuild]
  · right
    refine ⟨tokens, report, (h.resolved?_eq _).symm.trans htokens, ?_⟩
    unfold switch
    dsimp only
    rw [hbuild]
    rfl

theorem coherent_switched (h : Wired themes s) {name : String} {tokens : TokenSet} {report : Report}
    (htokens : themes.resolved? s.settings.resolver.resolver s.engine.functions name =
      some tokens) : Coherent themes (s.switched report tokens name) := by
  refine Coherent.congr ?_ (unmoved_note _ "theme_switch")
  exact ⟨⟨h.engine, h.resolver, h.settings, h.functions⟩, htokens, rfl⟩

/-- A switch succeeds exactly for the name of a theme, or one whose canonical spelling is that. -/
theorem switch_ok_iff (h : Wired themes s) (name : String) :
    (∃ s', s.switch name = .ok s') ↔ name ∈ themes.names ∨ themeName name ∈ themes.names := by
  rw [← find?_canonicalName_isSome_iff h.engine name]
  obtain ⟨hnone, -, hrefused⟩ | ⟨tokens, report, htokens, hok⟩ := switch_cases h name
  · rw [hrefused, hnone]
    simp
  · refine iff_of_true ⟨_, hok⟩ ?_
    rw [← themes.resolved?_isSome_iff s.settings.resolver.resolver s.engine.functions, htokens]
    rfl

/-! ## Runs -/

theorem coherent_step (h : Coherent themes s) (op : Op) : Coherent themes (s.step op) := by
  cases hchange : op.isChange with
  | false => exact h.congr (unmoved_step s hchange)
  | true =>
    cases op with
    | switch name =>
      obtain ⟨-, -, hrefused⟩ | ⟨tokens, report, htokens, hok⟩ := switch_cases h.toWired name
      · rw [step, hrefused]
        exact h
      · rw [step, hok]
        exact coherent_switched h.toWired htokens
    | register name f => exact coherent_register h name f
    | settings settings =>
      cases hresult : s.withSettings settings with
      | error refusal =>
        rw [step, hresult]
        exact h
      | ok s' =>
        rw [step, hresult]
        exact coherent_withSettings h hresult
    | addRule _ | removeRule _ | clearCaches | resetMetrics | startMonitoring | stopMonitoring
    | compile _ _ | optimize _ _ | compileTemplate _ _ | generate _ _ => cases hchange

theorem coherent_blank (settings : Settings) (themes : Themes) (store : Template.Store) :
    Coherent themes (blank settings themes store) :=
  ⟨⟨rfl, rfl, rfl, rfl⟩, rfl, rfl⟩

theorem coherent_start (settings : Settings) (themes : Themes) (store : Template.Store) :
    Coherent themes (start settings themes store) := by
  have hblank := coherent_blank settings themes store
  -- A first theme that there is not leaves the session without a theme.
  have hswitched : Coherent themes (((settings.theme.map (blank settings themes store).switch).bind
      Except.toOption).getD (blank settings themes store)) := by
    cases settings.theme with
    | none => exact hblank
    | some name => exact coherent_step hblank (.switch name)
  unfold start
  dsimp only
  split
  · exact hswitched.congr ⟨rfl, rfl, rfl, rfl, Style.Compiler.Alike.refl _⟩
  · exact hswitched

theorem coherent_run (h : Coherent themes s) (ops : List Op) : Coherent themes (s.run ops) := by
  induction ops generalizing s with
  | nil => exact h
  | cons op rest ih => exact ih (coherent_step h op)

/-! ## Every session that can be reached -/

/-- What holds of a session over some themes, whatever was done with it. -/
structure Orderly (themes : Themes) (s : Session) : Prop where
  /-- There is no theme and there are no tokens, or the theme is one that there is and the tokens are
      those of it, under the settings of the resolver and the functions of now. -/
  tokens : s.theme = none ∧ s.tokens = [] ∨
    ∃ name set, s.theme = some name ∧ themes.find? name = some set ∧
      s.tokens = (s.settings.resolver.resolver.resolve (TokenSet.merge themes.baseSet set)
        s.engine.functions).1
  compiled : s.compiler.tokens = s.tokens
  /-- A switch succeeds exactly for the name of a theme, or one whose canonical spelling is that. -/
  switch_iff : ∀ name, (∃ s', s.switch name = .ok s') ↔
    name ∈ themes.names ∨ themeName name ∈ themes.names
  /-- A switch that is refused has not changed the engine, which it tries first, nor anything
      else. -/
  switch_refused : ∀ name refusal, s.switch name = .error refusal →
    (s.engine.build (s.canonicalName name)).2 = s.engine ∧ s.step (.switch name) = s
  settings_refused : ∀ settings refusal, s.withSettings settings = .error refusal →
    s.step (.settings settings) = s

theorem Coherent.tokens_eq (h : Coherent themes s) : s.theme = none ∧ s.tokens = [] ∨
    ∃ name set, s.theme = some name ∧ themes.find? name = some set ∧
      s.tokens = (s.settings.resolver.resolver.resolve (TokenSet.merge themes.baseSet set)
        s.engine.functions).1 := by
  cases htheme : s.theme with
  | none => exact Or.inl ⟨rfl, (h.none_of_theme htheme).1⟩
  | some name =>
    have htokens := h.tokens
    rw [expected, htheme] at htokens
    obtain ⟨set, hfind, hset⟩ := Option.map_eq_some_iff.1 htokens
    exact Or.inr ⟨name, set, rfl, hfind, hset.symm⟩

theorem Coherent.orderly (h : Coherent themes s) : Orderly themes s where
  tokens := h.tokens_eq
  compiled := h.compiled
  switch_iff := switch_ok_iff h.toWired
  switch_refused name refusal herror := by
    obtain ⟨-, hbuild, -⟩ | ⟨tokens, report, -, hok⟩ := switch_cases h.toWired name
    · exact ⟨by rw [hbuild], by rw [step, herror]; rfl⟩
    · rw [hok] at herror
      cases herror
  settings_refused settings refusal herror := by
    rw [step, herror]
    rfl

/-- **Whatever is done with a session, its theme, its tokens and its compiler agree**, and what is
    refused changes nothing. -/
theorem orderly_run (settings : Settings) (themes : Themes) (store : Template.Store)
    (ops : List Op) : Orderly themes ((start settings themes store).run ops) :=
  (coherent_run (coherent_start settings themes store) ops).orderly

end Session

end Theming
