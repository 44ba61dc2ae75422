import Theming.Proofs.Session.Coherence
import Theming.Proofs.Sheet.Lengths
import Theming.Proofs.Style.Optimizing
import Theming.Proofs.Style.Requests

set_option autoImplicit false

/-! # Compiling without a context

A session keeps what it read, compiled and optimized, in four caches under different keys. Neither
the functions nor the settings are part of any key. What a template compiles and optimizes to
without a context is nevertheless always what is made from scratch, as each change forgets what it
makes stale.

The one thing that can come between is a context that has no leaves and yet is not empty: the caches
take it for no context.

Main statement: `Session.plain_run`. -/

namespace Theming

open Sheet (Node Level)

/-- A context without leaves is empty. -/
def Session.Op.TellsContext (op : Op) : Prop := op.context.flatten = [] → op.context = []

/-! ## The compiler -/

namespace Style

namespace Compiler

/-- The tree of a template with the tokens of the compiler, made from scratch. -/
def freshTree (c : Compiler) (template : String) : Node :=
  (Style.substitute [] c.tokens c.functions (Sheet.parse template)).1

/-- What a template is optimized to, made from scratch. -/
def freshOptimized (c : Compiler) (template : String) (level : Level) : String :=
  c.serialize (Sheet.optimize level (c.freshTree template)).1

/-- Trees are those of their templates. -/
def TreesRead (trees : Cache String Node) : Prop :=
  ∀ template tree, Cache.find? template trees = some tree → tree = Sheet.parse template

/-- The caches hold trees of templates and, without a context, what the compiler makes of them
    now. -/
structure Plain (c : Compiler) : Prop where
  trees : TreesRead c.trees
  outputs : ∀ template out,
    Cache.find? (c.outputKey template []) c.outputs = some out → out = c.direct ⟨template, []⟩

theorem freshOptimized_congr {c c' : Compiler} (h : Alike c c') :
    c'.freshOptimized = c.freshOptimized := by
  funext template level
  unfold freshOptimized freshTree serialize
  rw [h.settings, h.tokens, h.functions]

theorem plain_of_outputs_eq_nil {c : Compiler} (htrees : TreesRead c.trees)
    (houtputs : c.outputs = []) : c.Plain where
  trees := htrees
  outputs template out hfind := by
    rw [houtputs] at hfind
    cases hfind

/-- What is counted, and what is added to the trees, changes nothing of it. -/
theorem Plain.congr {c c' : Compiler} (h : c.Plain) (halike : Alike c c')
    (htrees : TreesRead c'.trees) (houtputs : c'.outputs = c.outputs) : c'.Plain where
  trees := htrees
  outputs template out hfind := by
    rw [direct_congr halike.settings halike.functions halike.tokens]
    refine h.outputs template out ?_
    rwa [houtputs, outputKey, halike.version] at hfind

/-- Without a context, a template gets what is made from scratch. -/
theorem Plain.compile_eq {c : Compiler} (h : c.Plain) (template : String) :
    (c.compile template []).1 = c.direct ⟨template, []⟩ := by
  cases hfind : Cache.findWhen? c.settings.caches (c.outputKey template []) c.outputs with
  | some out =>
    rw [compile_hit (r := ⟨template, []⟩) hfind]
    exact h.outputs template out (Cache.findWhen?_eq_some_iff.1 hfind).2
  | none =>
    obtain ⟨trees, counters, -, heq⟩ := compile_miss (r := ⟨template, []⟩) h.trees hfind
    rw [heq]

theorem plain_compile {c : Compiler} (h : c.Plain) (r : Request)
    (htells : r.context.flatten = [] → r.context = []) :
    (c.compile r.template r.context).2.Plain := by
  have halike := c.alike_compile r.template r.context
  cases hfind : Cache.findWhen? c.settings.caches (c.outputKey r.template r.context) c.outputs with
  | some out =>
    refine h.congr halike ?_ ?_
    · rw [compile_hit hfind]
      exact h.trees
    · rw [compile_hit hfind]
  | none =>
    obtain ⟨trees, counters, htrees, heq⟩ := compile_miss h.trees hfind
    refine ⟨by rw [heq]; exact htrees, ?_⟩
    intro template out hout
    rw [direct_congr halike.settings halike.functions halike.tokens]
    rw [outputKey, halike.version, heq] at hout
    obtain ⟨hkey, rfl⟩ | hbefore := Cache.find?_insertWhen_cases hout
    · -- What is stored now is found without a context only if there was none.
      obtain ⟨rfl, hleaves, -⟩ := OutputKey.mk.inj hkey
      have hempty : r.context = [] := htells hleaves.symm
      rw [← hempty]
    · exact h.outputs template out hbefore

theorem Plain.compileTree_eq {c : Compiler} (h : c.Plain) (template : String) :
    (c.compileTree template []).1 = c.freshTree template := by
  obtain ⟨htree, -, trees, counters, hafter⟩ := parse_eq h.trees template
  unfold compileTree substitute freshTree
  dsimp only
  rw [htree, hafter]

theorem plain_compileTree {c : Compiler} (h : c.Plain) (template : String) (context : TokenSet) :
    (c.compileTree template context).2.Plain := by
  obtain ⟨-, htrees, trees, counters, hafter⟩ := parse_eq h.trees template
  refine h.congr (c.alike_compileTree template context) htrees ?_
  show (c.parse template).2.outputs = c.outputs
  rw [hafter]

end Compiler

theorem Overlay.plain_generate {c : Compiler} (h : c.Plain) (o : Overlay) (r : Request)
    (htells : r.context.flatten = [] → r.context = []) :
    (o.generate c r.template r.context).2.2.Plain := by
  have hcompile := Compiler.plain_compile h r htells
  unfold generate
  dsimp only
  cases Cache.findWhen? o.settings.caches ⟨c.outputKey r.template r.context, o.version⟩
      o.outputs with
  | some out => exact h
  | none =>
    exact hcompile.congr (Compiler.alike_substitute _ _ r.context) hcompile.trees rfl

end Style

/-! ## The session -/

namespace Session

/-- All that is kept for requests without a context is what would be made now. -/
structure Kept (s : Session) : Prop where
  compiler : s.compiler.Plain
  optimizer : s.optimizer.Sound
  optimized : ∀ template level out,
    Cache.find? ⟨template, s.compiler.version, level⟩ s.optimized = some out →
      out = s.compiler.freshOptimized template level

variable {s : Session}

theorem Kept.congr {s' : Session} (h : Kept s) (hcompiler : s'.compiler.Plain)
    (halike : s.compiler.Alike s'.compiler) (hoptimizer : s'.optimizer.Sound)
    (hoptimized : s'.optimized = s.optimized) : Kept s' where
  compiler := hcompiler
  optimizer := hoptimizer
  optimized template level out hfind := by
    rw [hoptimized, halike.version] at hfind
    rw [Style.Compiler.freshOptimized_congr halike]
    exact h.optimized template level out hfind

theorem Kept.withOverlay (h : Kept s) (overlay : Style.Overlay) :
    Kept { s with overlay := overlay } := ⟨h.compiler, h.optimizer, h.optimized⟩

/-- Telling the monitor leaves what is kept. -/
theorem kept_note (h : Kept s) (operation : String) : Kept (s.note operation) := by
  obtain ⟨monitor, heq⟩ := s.note_eq operation
  rw [heq]
  exact ⟨h.compiler, h.optimizer, h.optimized⟩

/-! ### Changes -/

/-- Nothing is kept when the caches were cleared. -/
theorem kept_clearCaches (s : Session) : Kept s.clearCaches where
  compiler := Style.Compiler.plain_of_outputs_eq_nil (fun _ _ hfind => by cases hfind) rfl
  optimizer := Style.Optimizer.sound_of_results_eq_nil rfl
  optimized _ _ _ hfind := by cases hfind

theorem kept_switched (s : Session) (report : Report) (tokens : TokenSet) (name : String) :
    Kept (s.switched report tokens name) := by
  have hbuilt : Kept (s.built report tokens) := kept_clearCaches _
  refine kept_note ?_ "theme_switch"
  exact ⟨hbuilt.compiler, hbuilt.optimizer, hbuilt.optimized⟩

theorem kept_resetMetrics (h : Kept s) : Kept s.resetMetrics := by
  have hplain : s.compiler.resetMetrics.Plain :=
    h.compiler.congr ⟨rfl, rfl, rfl, rfl⟩ h.compiler.trees rfl
  exact h.congr hplain ⟨rfl, rfl, rfl, rfl⟩ h.optimizer rfl

theorem kept_startMonitoring (h : Kept s) : Kept s.startMonitoring :=
  ⟨h.compiler, h.optimizer, h.optimized⟩

theorem kept_rebuild {themes : Themes} (h : Wired themes s)
    (hsome : ∀ theme, s.theme = some theme → (themes.find? theme).isSome) : Kept s.rebuild := by
  obtain ⟨-, hafter⟩ | ⟨theme, tokens, report, -, -, hafter⟩ := rebuild_cases h hsome
  · rw [hafter]
    exact s.kept_clearCaches
  · rw [hafter]
    exact kept_clearCaches _

theorem kept_register {themes : Themes} (h : Coherent themes s) (name : String)
    (f : ValueFunction) : Kept (s.register name f) :=
  kept_rebuild (h.wired_handFunction name f) (fun _ htheme => h.exists_of_theme htheme)

theorem kept_withSettings {themes : Themes} (h : Coherent themes s) {settings : Settings}
    {s' : Session} (hok : s.withSettings settings = .ok s') : Kept s' := by
  unfold withSettings at hok
  split at hok
  · cases hok
  · injection hok with hok
    subst hok
    split
    · exact kept_rebuild (h.wired_handSettings settings)
        (fun _ htheme => h.exists_of_theme htheme)
    · exact kept_clearCaches _

/-! ### Requests -/

theorem Kept.compile_eq (h : Kept s) (template : String) :
    (s.compile template []).1 =
      Sheet.serialize s.compiler.settings.layout (s.compiler.freshTree template) :=
  h.compiler.compile_eq template

theorem kept_compile (h : Kept s) (template : String) (context : TokenSet)
    (htells : context.flatten = [] → context = []) : Kept (s.compile template context).2 := by
  refine kept_note ?_ "compile"
  exact h.congr (Style.Compiler.plain_compile h.compiler ⟨template, context⟩ htells)
    (s.compiler.alike_compile template context) h.optimizer rfl

theorem kept_compileTemplate (h : Kept s) (name : String) (context : TokenSet)
    (htells : context.flatten = [] → context = []) :
    Kept (s.compileTemplate name context).2 := by
  have hload : Kept { s with loader := (s.loader.load name false).2 } :=
    ⟨h.compiler, h.optimizer, h.optimized⟩
  unfold compileTemplate
  dsimp only
  split
  · exact hload
  · exact kept_compile hload _ context htells

theorem kept_generate (h : Kept s) (template : String) (context : TokenSet)
    (htells : context.flatten = [] → context = []) : Kept (s.generate template context).2 := by
  refine kept_note ?_ "generate_dynamic"
  exact h.congr (Style.Overlay.plain_generate h.compiler s.overlay ⟨template, context⟩ htells)
    (s.overlay.alike_generate s.compiler template context) h.optimizer rfl

/-- A template is optimized as from scratch, and what is stored is that. -/
theorem Kept.compileOptimized_eq (h : Kept s) (template : String) (level : Level) :
    (s.compileOptimized template level).1 = s.compiler.freshOptimized template level ∧
      Kept (s.compileOptimized template level).2 := by
  have halike := s.compiler.alike_compileTree template []
  have hplain := Style.Compiler.plain_compileTree h.compiler template []
  have htree := h.compiler.compileTree_eq template
  have hresult := Style.Optimizer.optimize_eq h.optimizer (s.compiler.freshTree template) level
  have hsound := Style.Optimizer.sound_optimize h.optimizer (s.compiler.freshTree template) level
  have hfresh : (s.compiler.compileTree template []).2.serialize
      (Sheet.optimize level (s.compiler.freshTree template)).1 =
        s.compiler.freshOptimized template level := by
    rw [Style.Compiler.freshOptimized, Style.Compiler.serialize, Style.Compiler.serialize,
      halike.settings]
  unfold compileOptimized
  dsimp only
  cases hfind : Cache.findWhen? s.settings.optimizer.caches
      ⟨template, s.compiler.version, level⟩ s.optimized with
  | some out =>
    refine ⟨h.optimized template level out (Cache.findWhen?_eq_some_iff.1 hfind).2, ?_⟩
    exact ⟨h.compiler, h.optimizer, h.optimized⟩
  | none =>
    dsimp only
    rw [htree]
    generalize s.optimizer.optimize (s.compiler.freshTree template) level = optimization
      at hresult hsound
    obtain ⟨result, optimizer⟩ := optimization
    dsimp only at hresult hsound
    subst hresult
    dsimp only
    rw [hfresh]
    refine ⟨rfl, kept_note ⟨hplain, hsound, ?_⟩ "compile_optimized"⟩
    intro other otherLevel out hout
    rw [Style.Compiler.freshOptimized_congr halike]
    rw [halike.version] at hout
    obtain ⟨hkey, rfl⟩ | hbefore := Cache.find?_insertWhen_cases hout
    · obtain ⟨rfl, -, rfl⟩ := OptimizedKey.mk.inj hkey
      rfl
    · exact h.optimized other otherLevel out hbefore

/-! ### Runs -/

theorem kept_step {themes : Themes} (hcoherent : Coherent themes s) (h : Kept s) (op : Op)
    (htells : op.TellsContext) : Kept (s.step op) := by
  cases op with
  | switch name =>
    obtain ⟨-, -, hrefused⟩ | ⟨tokens, report, -, hok⟩ := switch_cases hcoherent.toWired name
    · rw [step, hrefused]
      exact h
    · rw [step, hok]
      exact s.kept_switched report tokens (s.canonicalName name)
  | register name f => exact kept_register hcoherent name f
  | settings settings =>
    cases hresult : s.withSettings settings with
    | error refusal =>
      rw [step, hresult]
      exact h
    | ok s' =>
      rw [step, hresult]
      exact kept_withSettings hcoherent hresult
  | clearCaches => exact s.kept_clearCaches
  | addRule rule => exact h.withOverlay ((s.overlay.add rule).getD s.overlay)
  | removeRule selector => exact h.withOverlay ((s.overlay.remove selector).getD s.overlay)
  | startMonitoring => exact kept_startMonitoring h
  | stopMonitoring => exact ⟨h.compiler, h.optimizer, h.optimized⟩
  | resetMetrics => exact kept_resetMetrics h
  | compile template context => exact kept_compile h template context htells
  | optimize template level =>
    exact (h.compileOptimized_eq template (level.getD s.settings.optimizer.level)).2
  | compileTemplate name context => exact kept_compileTemplate h name context htells
  | generate template context => exact kept_generate h template context htells

theorem kept_start (settings : Settings) (themes : Themes) (store : Template.Store) :
    Kept (start settings themes store) := by
  have hblank : Kept (blank settings themes store) :=
    ⟨Style.Compiler.plain_of_outputs_eq_nil (fun _ _ hfind => by cases hfind) rfl,
      Style.Optimizer.sound_of_results_eq_nil rfl, fun _ _ _ hfind => by cases hfind⟩
  have hswitched : Kept (((settings.theme.map (blank settings themes store).switch).bind
      Except.toOption).getD (blank settings themes store)) := by
    cases settings.theme with
    | none => exact hblank
    | some name =>
      exact kept_step (coherent_blank settings themes store) hblank (.switch name) (fun _ => rfl)
  unfold start
  dsimp only
  split
  · exact kept_startMonitoring hswitched
  · exact hswitched

theorem kept_run {themes : Themes} (hcoherent : Coherent themes s) (h : Kept s) {ops : List Op}
    (htells : ∀ op ∈ ops, op.TellsContext) : Kept (s.run ops) := by
  induction ops generalizing s with
  | nil => exact h
  | cons op rest ih =>
    exact ih (coherent_step hcoherent op) (kept_step hcoherent h op (htells op List.mem_cons_self))
      (fun other hother => htells other (List.mem_cons_of_mem op hother))

/-- What is compiled and optimized without a context is what is made from scratch with the tokens,
    the functions and the settings of now. -/
structure Plain (s : Session) : Prop where
  compile_eq : ∀ template, (s.compile template []).1 =
    Sheet.serialize s.settings.compiler.layout
      (Style.substitute [] s.tokens s.engine.functions (Sheet.parse template)).1
  optimize_eq : ∀ template level, (s.compileOptimized template level).1 =
    Sheet.serialize s.settings.compiler.layout
      (Sheet.optimize level
        (Style.substitute [] s.tokens s.engine.functions (Sheet.parse template)).1).1

theorem plain_of_kept {themes : Themes} (hcoherent : Coherent themes s) (h : Kept s) : Plain s where
  compile_eq template := by
    rw [h.compile_eq, Style.Compiler.freshTree, hcoherent.settings, hcoherent.compiled,
      hcoherent.functions]
  optimize_eq template level := by
    rw [(h.compileOptimized_eq template level).1, Style.Compiler.freshOptimized,
      Style.Compiler.serialize, Style.Compiler.freshTree, hcoherent.settings, hcoherent.compiled,
      hcoherent.functions]

/-- A session writes an optimized template in no more bytes than the template, whichever of its
    caches answers. -/
theorem Plain.utf8ByteSize_compileOptimized_le (h : Plain s) (template : String) :
    (s.compileOptimized template .aggressive).1.utf8ByteSize ≤
        (s.compileOptimized template .advanced).1.utf8ByteSize ∧
      (s.compileOptimized template .advanced).1.utf8ByteSize ≤
        (s.compileOptimized template .basic).1.utf8ByteSize ∧
      (s.compileOptimized template .basic).1.utf8ByteSize ≤
        (s.compile template []).1.utf8ByteSize := by
  rw [h.optimize_eq, h.optimize_eq, h.optimize_eq, h.compile_eq]
  exact Sheet.utf8ByteSize_optimize_le _ _

/-- **Without a context, no cache can be seen**: after any run whose contexts are empty or have
    leaves, templates compile and optimize to what is made from scratch, whichever caches the
    settings turn on. -/
theorem plain_run (settings : Settings) (themes : Themes) (store : Template.Store) (ops : List Op)
    (htells : ∀ op ∈ ops, op.TellsContext) : Plain ((start settings themes store).run ops) := by
  have hcoherent := coherent_start settings themes store
  exact plain_of_kept (coherent_run hcoherent ops)
    (kept_run hcoherent (kept_start settings themes store) htells)

/-- A template that was compiled in a context, before its theme came, is optimized as from
    scratch. -/
theorem plain_run_switch :
    Plain ((start default ⟨none, [("dark", [("c", .str "blue")])]⟩ []).run
      [.compile "a { b: $c; }" [("c", .str "red")], .switch "dark",
        .optimize "a { b: $c; }" none]) := by
  refine plain_run _ _ _ _ ?_
  intro op hop
  simp only [List.mem_cons, List.not_mem_nil, or_false] at hop
  obtain rfl | rfl | rfl := hop
  · intro h
    exact absurd h (by decide +kernel)
  · exact fun _ => rfl
  · exact fun _ => rfl

end Session

end Theming
