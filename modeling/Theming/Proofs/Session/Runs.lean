import Theming.Session

set_option autoImplicit false

/-! # Runs of a session

What can be done with a session, one thing after the other, and what each of them leaves as it is.
A request (compiling, generating, changing the rules of the overlay, and all that only counts or
watches) changes neither the theme nor anything that outputs depend on (`Session.Unmoved`). -/

namespace Theming

namespace Session

/-! ## Operations -/

/-- What can be done with a session. -/
inductive Op where
  | switch (name : String)
  | register (name : String) (f : ValueFunction)
  | settings (settings : Settings)
  | addRule (rule : Style.Rule)
  | removeRule (selector : String)
  | clearCaches
  | resetMetrics
  | startMonitoring
  | stopMonitoring
  | compile (template : String) (context : TokenSet)
  /-- Without a level, that of the settings is taken. -/
  | optimize (template : String) (level : Option Sheet.Level)
  | compileTemplate (name : String) (context : TokenSet)
  | generate (template : String) (context : TokenSet)

/-- The context that is passed; empty where none is. -/
def Op.context : Op → TokenSet
  | .compile _ context => context
  | .compileTemplate _ context => context
  | .generate _ context => context
  | _ => []

/-- Does one thing; what is refused changes nothing. -/
def step (s : Session) : Op → Session
  | .switch name => (s.switch name).toOption.getD s
  | .register name f => s.register name f
  | .settings settings => (s.withSettings settings).toOption.getD s
  | .addRule rule => { s with overlay := (s.overlay.add rule).getD s.overlay }
  | .removeRule selector => { s with overlay := (s.overlay.remove selector).getD s.overlay }
  | .clearCaches => s.clearCaches
  | .resetMetrics => s.resetMetrics
  | .startMonitoring => s.startMonitoring
  | .stopMonitoring => s.stopMonitoring
  | .compile template context => (s.compile template context).2
  | .optimize template level =>
    (s.compileOptimized template (level.getD s.settings.optimizer.level)).2
  | .compileTemplate name context => (s.compileTemplate name context).2
  | .generate template context => (s.generate template context).2

/-- Does one thing after the other. -/
def run (s : Session) (ops : List Op) : Session := ops.foldl step s

end Session

/-! ## What requests leave as it is -/

namespace Style

/-- Two compilers have the same settings, functions and tokens, in the same version. -/
structure Compiler.Alike (c c' : Compiler) : Prop where
  settings : c'.settings = c.settings
  functions : c'.functions = c.functions
  tokens : c'.tokens = c.tokens
  version : c'.version = c.version

namespace Compiler

theorem Alike.refl (c : Compiler) : Alike c c := ⟨rfl, rfl, rfl, rfl⟩

theorem Alike.trans {c c' c'' : Compiler} (h : Alike c c') (h' : Alike c' c'') : Alike c c'' :=
  ⟨h'.settings.trans h.settings, h'.functions.trans h.functions, h'.tokens.trans h.tokens,
    h'.version.trans h.version⟩

theorem alike_parse (c : Compiler) (template : String) : Alike c (c.parse template).2 := by
  unfold Compiler.parse
  cases Cache.findWhen? c.settings.caches template c.trees with
  | some tree => exact ⟨rfl, rfl, rfl, rfl⟩
  | none => exact ⟨rfl, rfl, rfl, rfl⟩

theorem alike_substitute (c : Compiler) (tree : Sheet.Node) (context : TokenSet) :
    Alike c (c.substitute tree context).2 := ⟨rfl, rfl, rfl, rfl⟩

theorem alike_compileTree (c : Compiler) (template : String) (context : TokenSet) :
    Alike c (c.compileTree template context).2 :=
  (c.alike_parse template).trans (alike_substitute _ _ context)

theorem alike_compile (c : Compiler) (template : String) (context : TokenSet) :
    Alike c (c.compile template context).2 := by
  have hcounted : Alike c { c with counters := c.counters.bump "cache_misses" } :=
    ⟨rfl, rfl, rfl, rfl⟩
  have htree := hcounted.trans (alike_compileTree _ template context)
  unfold Compiler.compile
  dsimp only
  cases Cache.findWhen? c.settings.caches (c.outputKey template context) c.outputs with
  | some out => exact ⟨rfl, rfl, rfl, rfl⟩
  | none => exact ⟨htree.settings, htree.functions, htree.tokens, htree.version⟩

end Compiler

theorem Overlay.alike_generate (o : Overlay) (c : Compiler) (template : String)
    (context : TokenSet) : c.Alike (o.generate c template context).2.2 := by
  unfold Overlay.generate
  dsimp only
  cases Cache.findWhen? o.settings.caches ⟨c.outputKey template context, o.version⟩ o.outputs with
  | some out => exact Compiler.Alike.refl c
  | none => exact (c.alike_compile template context).trans (Compiler.alike_substitute _ _ context)

end Style

namespace Session

/-- The theme and all that outputs depend on stay. -/
structure Unmoved (s s' : Session) : Prop where
  settings : s'.settings = s.settings
  engine : s'.engine = s.engine
  theme : s'.theme = s.theme
  tokens : s'.tokens = s.tokens
  compiler : s.compiler.Alike s'.compiler

theorem Unmoved.trans {s s' s'' : Session} (h : Unmoved s s') (h' : Unmoved s' s'') :
    Unmoved s s'' :=
  ⟨h'.settings.trans h.settings, h'.engine.trans h.engine, h'.theme.trans h.theme,
    h'.tokens.trans h.tokens, h.compiler.trans h'.compiler⟩

theorem note_eq (s : Session) (operation : String) :
    ∃ monitor, s.note operation = { s with monitor := monitor } := by
  unfold note
  split
  · dsimp only
    split
    · exact ⟨_, rfl⟩
    · exact ⟨_, rfl⟩
  · exact ⟨_, rfl⟩

theorem unmoved_note (s : Session) (operation : String) : Unmoved s (s.note operation) := by
  obtain ⟨monitor, heq⟩ := s.note_eq operation
  rw [heq]
  exact ⟨rfl, rfl, rfl, rfl, Style.Compiler.Alike.refl _⟩

theorem unmoved_compile (s : Session) (template : String) (context : TokenSet) :
    Unmoved s (s.compile template context).2 := by
  refine Unmoved.trans ?_ (unmoved_note _ "compile")
  exact ⟨rfl, rfl, rfl, rfl, s.compiler.alike_compile template context⟩

theorem unmoved_compileTemplate (s : Session) (name : String) (context : TokenSet) :
    Unmoved s (s.compileTemplate name context).2 := by
  have hload : Unmoved s { s with loader := (s.loader.load name false).2 } :=
    ⟨rfl, rfl, rfl, rfl, Style.Compiler.Alike.refl _⟩
  unfold compileTemplate
  dsimp only
  split
  · exact hload
  · exact hload.trans (unmoved_compile _ _ context)

theorem unmoved_compileOptimized (s : Session) (template : String) (level : Sheet.Level) :
    Unmoved s (s.compileOptimized template level).2 := by
  unfold compileOptimized
  dsimp only
  split
  · exact ⟨rfl, rfl, rfl, rfl, Style.Compiler.Alike.refl _⟩
  · refine Unmoved.trans ?_ (unmoved_note _ "compile_optimized")
    exact ⟨rfl, rfl, rfl, rfl, s.compiler.alike_compileTree template []⟩

theorem unmoved_generate (s : Session) (template : String) (context : TokenSet) :
    Unmoved s (s.generate template context).2 := by
  refine Unmoved.trans ?_ (unmoved_note _ "generate_dynamic")
  exact ⟨rfl, rfl, rfl, rfl, s.overlay.alike_generate s.compiler template context⟩

theorem unmoved_withOverlay (s : Session) (overlay : Style.Overlay) :
    Unmoved s { s with overlay := overlay } :=
  ⟨rfl, rfl, rfl, rfl, Style.Compiler.Alike.refl _⟩

/-- The operations that may change the theme or what outputs depend on. -/
def Op.isChange : Op → Bool
  | .switch _ => true
  | .register _ _ => true
  | .settings _ => true
  | _ => false

/-- **Every operation but a change leaves the theme and all that outputs depend on.** -/
theorem unmoved_step (s : Session) {op : Op} (h : op.isChange = false) : Unmoved s (s.step op) := by
  cases op with
  | switch _ | register _ _ | settings _ => cases h
  | addRule rule => exact s.unmoved_withOverlay ((s.overlay.add rule).getD s.overlay)
  | removeRule selector => exact s.unmoved_withOverlay ((s.overlay.remove selector).getD s.overlay)
  | clearCaches | resetMetrics | startMonitoring | stopMonitoring =>
    exact ⟨rfl, rfl, rfl, rfl, ⟨rfl, rfl, rfl, rfl⟩⟩
  | compile template context => exact unmoved_compile s template context
  | optimize template level =>
    exact unmoved_compileOptimized s template (level.getD s.settings.optimizer.level)
  | compileTemplate name context => exact unmoved_compileTemplate s name context
  | generate template context => exact unmoved_generate s template context

end Session

end Theming
