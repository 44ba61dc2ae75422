import Theming.Proofs.Style.Requests
import Theming.Proofs.Token.Paths

set_option autoImplicit false

/-! # What overlays answer from their caches

An overlay stores whole outputs, and the compiler below it stores the compiled templates. A stored
output is used until the rules, the settings of the overlay or the tokens change, a compiled template
until the tokens change. So two earlier requests may stand behind one answer: one for the template
and one for the rules that apply (`Overlay.Trace.generate_eq`).

The main result, `caches_invisible_iff`, says exactly when that cannot be seen in a run. -/

namespace Theming.Style

open Sheet (Node)

namespace Request

theorem leader_append_self (earlier : List Request) (r : Request) :
    r.leader (earlier ++ [r]) = r.leader earlier := by
  unfold leader
  cases h : earlier.find? r.alike with
  | none => rw [find?_append_of_none h, if_pos (alike_self r)]; rfl
  | some b => rw [find?_append_of_some h, h]

/-- A context that its leaves say everything about: its keys can stand in paths, and no map in it is
    empty. -/
def IsPlain (r : Request) : Prop := r.context.Keyed ∧ r.context.Filled

theorem eq_of_alike {r a : Request} (hr : r.IsPlain) (ha : a.IsPlain) (h : r.alike a = true) :
    a = r := by
  obtain ⟨htemplate, hleaves⟩ := alike_iff.1 h
  have hcontext := TokenSet.eq_of_flatten_eq ha.1 hr.1 ha.2 hr.2 hleaves
  obtain ⟨template, context⟩ := r
  obtain ⟨template', context'⟩ := a
  cases htemplate
  cases hcontext
  rfl

theorem leader_eq_self {earlier : List Request} {r : Request} (hr : r.IsPlain)
    (h : ∀ a ∈ earlier, a.IsPlain) : r.leader earlier = r := by
  rcases leader_mem earlier r with hmem | heq
  · exact eq_of_alike hr (h _ hmem) (alike_leader earlier r)
  · exact heq

end Request

namespace Compiler.Trace

/-- Figures are no part of what makes caches sound. -/
theorem Sound.withCounters {c : Compiler} {recent : List Request} (h : Sound ⟨c, recent⟩)
    (counters : Counters) : Sound ⟨{ c with counters := counters }, recent⟩ where
  trees := h.trees
  outputs hon r := by
    have hdirect : direct { c with counters := counters } = direct c :=
      funext (direct_congr rfl rfl rfl)
    have houtputs := h.outputs hon r
    rw [← hdirect] at houtputs
    exact houtputs

/-- A request that is not passed on to the compiler leaves it sound if an earlier one was. -/
theorem Sound.skip {t : Trace} (h : t.Sound) {r b : Request} (hb : b ∈ t.recent)
    (halike : r.alike b = true) : Sound ⟨t.compiler, t.recent ++ [r]⟩ where
  trees := h.trees
  outputs hon a := by
    have hfind : ∃ c, t.recent.find? r.alike = some c := by
      cases hfind : t.recent.find? r.alike with
      | none => exact absurd halike (List.find?_eq_none.1 hfind b hb)
      | some c => exact ⟨c, rfl⟩
    obtain ⟨c, hc⟩ := hfind
    show Cache.find? _ t.compiler.outputs = ((t.recent ++ [r]).find? a.alike).map _
    rw [Request.find?_append_of_some hc]
    exact h.outputs hon a

theorem source_eq_of_mem {t t' : Trace} (hsettings : t'.compiler.settings = t.compiler.settings)
    {r : Request} (hrecent : t'.recent = t.recent ++ [r]) {a : Request}
    (ha : a ∈ t.recent ∨ a = r) : t'.source a = t.source a := by
  unfold source
  rw [hsettings, hrecent]
  rcases ha with ha | rfl
  · rw [Request.leader_append ⟨a, ha, Request.alike_self a⟩]
  · rw [Request.leader_append_self]

end Compiler.Trace

namespace Overlay

/-! ## Without caches -/

/-- The overlay with its cache turned off. -/
def uncached (o : Overlay) : Overlay :=
  { o with settings := { o.settings with caches := false } }

/-- What a request gets without caches. -/
def direct (o : Overlay) (c : Compiler) (r : Request) : String :=
  (o.uncached.generate c.uncached r.template r.context).1

/-- What is written behind the compiled template: the rules that apply. -/
def appendix (o : Overlay) (c : Compiler) (r : Request) : String :=
  Sheet.serialize c.settings.layout
    (Style.substitute r.context c.tokens c.functions (o.tree r.context)).1

theorem direct_eq (o : Overlay) (c : Compiler) (r : Request) :
    o.direct c r = c.direct r ++ o.appendix c r := rfl

/-- The rules that apply are written the same as long as rules, settings, functions and tokens
    stay. -/
theorem appendix_congr {o o' : Overlay} {c c' : Compiler} (hrules : o'.rules = o.rules)
    (hoverlay : o'.settings = o.settings) (hsettings : c'.settings = c.settings)
    (hfunctions : c'.functions = c.functions) (htokens : c'.tokens = c.tokens) (r : Request) :
    o'.appendix c' r = o.appendix c r := by
  unfold appendix tree applying
  rw [hrules, hoverlay, hsettings, hfunctions, htokens]

/-! ## Runs of an overlay -/

/-- What can be done with an overlay over a compiler. -/
inductive Op where
  | add (rule : Rule)
  | remove (selector : String)
  | clear
  | settings (settings : OverlaySettings)
  | tokens (set : TokenSet)
  | generate (request : Request)

/-- An overlay over a compiler, each with the requests that it answered since the last change to
    it or to what is below it. -/
structure Trace where
  overlay : Overlay
  compiler : Compiler.Trace
  recent : List Request

namespace Trace

/-- An overlay that has answered nothing yet, over such a compiler. -/
def start (overlay : OverlaySettings) (settings : CompilerSettings) (functions : Functions) :
    Trace :=
  ⟨Overlay.start overlay, Compiler.Trace.start settings functions, []⟩

/-- The trace after a change to the overlay; a change that is refused leaves everything. -/
def changed (t : Trace) : Option Overlay → Trace
  | some o => ⟨o, t.compiler, []⟩
  | none => t

/-- Does one thing. -/
def step (t : Trace) : Op → Trace
  | .add rule => t.changed (t.overlay.add rule)
  | .remove selector => t.changed (t.overlay.remove selector)
  | .clear => t.changed (some t.overlay.clear)
  | .settings settings => t.changed (some (t.overlay.withSettings settings))
  | .tokens set => ⟨t.overlay, t.compiler.step (.tokens set), []⟩
  | .generate r =>
    let after := (t.overlay.generate t.compiler.compiler r.template r.context).2
    ⟨after.1, ⟨after.2, t.compiler.recent ++ [r]⟩, t.recent ++ [r]⟩

/-- Does one thing after the other. -/
def run (t : Trace) (ops : List Op) : Trace := ops.foldl step t

/-- The request whose rules a request gets. -/
def source (t : Trace) (r : Request) : Request :=
  if t.overlay.settings.caches then r.leader t.recent else r

/-- The answer to a request that is not stored yet. -/
def answer (t : Trace) (r : Request) : String :=
  t.compiler.compiler.direct (t.compiler.source r) ++ t.overlay.appendix t.compiler.compiler r

/-- What an output is stored under. -/
def key (t : Trace) (r : Request) : OverlayKey :=
  ⟨t.compiler.compiler.outputKey r.template r.context, t.overlay.version⟩

/-! ## What the caches hold -/

/-- The output under the current versions is the answer to the first request that it was made
    for; what was stored before the tokens changed is under an older version. -/
structure Sound (t : Trace) : Prop where
  compiler : t.compiler.Sound
  recent : ∀ r ∈ t.recent, r ∈ t.compiler.recent
  versions : ∀ e ∈ t.overlay.outputs, e.1.output.version ≤ t.compiler.compiler.version
  outputs : t.overlay.settings.caches = true → ∀ r : Request,
    Cache.find? (t.key r) t.overlay.outputs = (t.recent.find? r.alike).map t.answer

theorem sound_start (overlay : OverlaySettings) (settings : CompilerSettings)
    (functions : Functions) : (start overlay settings functions).Sound where
  compiler := Compiler.Trace.sound_start settings functions
  recent _ hr := by cases hr
  versions _ he := by cases he
  outputs _ _ := rfl

/-- A change that empties the cache of the overlay leaves it sound. -/
theorem sound_changed {t : Trace} (h : t.Sound) {o : Overlay} (ho : o.outputs = []) :
    (t.changed (some o)).Sound where
  compiler := h.compiler
  recent _ hr := by cases hr
  versions e he := by
    have : e ∈ o.outputs := he
    rw [ho] at this
    cases this
  outputs _ r := by
    show Cache.find? _ o.outputs = none
    rw [ho]
    rfl

theorem find?_eq_none_of_keys {κ α : Type} [DecidableEq κ] {key : κ} {c : Cache κ α}
    (h : ∀ e ∈ c, e.1 ≠ key) : Cache.find? key c = none := by
  induction c with
  | nil => rfl
  | cons e rest ih =>
    rw [Cache.find?, if_neg (fun heq => h e List.mem_cons_self heq.symm),
      ih (fun e he => h e (List.mem_cons_of_mem _ he))]

/-- New tokens leave no stored output under the current version. -/
theorem sound_tokens {t : Trace} (h : t.Sound) (set : TokenSet) : (t.step (.tokens set)).Sound where
  compiler := Compiler.Trace.sound_step h.compiler (.tokens set)
  recent _ hr := by cases hr
  versions e he := Nat.le_succ_of_le (h.versions e he)
  outputs _ r := by
    refine find?_eq_none_of_keys (fun e he heq => ?_)
    have hversion : e.1.output.version = t.compiler.compiler.version + 1 := by rw [heq]; rfl
    have hle := h.versions e he
    omega

/-! ### One request -/

theorem generate_hit {o : Overlay} {c : Compiler} {r : Request} {out : String}
    (h : Cache.findWhen? o.settings.caches ⟨c.outputKey r.template r.context, o.version⟩ o.outputs =
      some out) :
    o.generate c r.template r.context =
      (out, { o with counters := o.counters.bump "cache_hits" }, c) := by
  unfold generate
  dsimp only
  rw [h]

/-- A request without a stored output is compiled, and its output is stored. -/
theorem generate_miss {o : Overlay} {c : Compiler} {r : Request}
    (hframe : (c.compile r.template r.context).2.settings = c.settings ∧
      (c.compile r.template r.context).2.functions = c.functions ∧
      (c.compile r.template r.context).2.tokens = c.tokens)
    (h : Cache.findWhen? o.settings.caches ⟨c.outputKey r.template r.context, o.version⟩ o.outputs =
      none) :
    ∃ overlayCounters compilerCounters,
      o.generate c r.template r.context =
        ((c.compile r.template r.context).1 ++ o.appendix c r,
          { o with
            outputs := Cache.insertWhen o.settings.caches
              ⟨c.outputKey r.template r.context, o.version⟩
              ((c.compile r.template r.context).1 ++ o.appendix c r) o.outputs
            counters := overlayCounters },
          { (c.compile r.template r.context).2 with counters := compilerCounters }) := by
  obtain ⟨hsettings, hfunctions, htokens⟩ := hframe
  unfold generate
  dsimp only
  rw [h]
  dsimp only [Compiler.substitute, Compiler.serialize, appendix]
  rw [hsettings, hfunctions, htokens]
  exact ⟨_, _, rfl⟩

/-- What is found was stored for the first request that is alike. -/
theorem Sound.first_of_hit {t : Trace} (h : t.Sound) {r : Request} {out : String}
    (hfind : Cache.findWhen? t.overlay.settings.caches (t.key r) t.overlay.outputs = some out) :
    t.overlay.settings.caches = true ∧
      ∃ a, t.recent.find? r.alike = some a ∧ t.answer a = out := by
  obtain ⟨hon, hstored⟩ := Cache.findWhen?_eq_some_iff.1 hfind
  rw [h.outputs hon r, Option.map_eq_some_iff] at hstored
  exact ⟨hon, hstored⟩

/-- If nothing is found, no request was alike. -/
theorem Sound.none_of_miss {t : Trace} (h : t.Sound) {r : Request}
    (hfind : Cache.findWhen? t.overlay.settings.caches (t.key r) t.overlay.outputs = none)
    (hon : t.overlay.settings.caches = true) : t.recent.find? r.alike = none := by
  rw [hon, Cache.findWhen?, if_pos rfl, h.outputs hon r, Option.map_eq_none_iff] at hfind
  exact hfind

/-- **An answer has the compiled template of one leader and the rules of another.** -/
theorem generate_eq {t : Trace} (h : t.Sound) (r : Request) :
    (t.overlay.generate t.compiler.compiler r.template r.context).1 = t.answer (t.source r) := by
  have hframe := Compiler.compile_frame h.compiler.trees r
  unfold source
  cases hfind : Cache.findWhen? t.overlay.settings.caches (t.key r) t.overlay.outputs with
  | none =>
    obtain ⟨_, _, heq⟩ := generate_miss ⟨hframe.1, hframe.2.1, hframe.2.2.1⟩ hfind
    have hanswer : (t.overlay.generate t.compiler.compiler r.template r.context).1 =
        t.answer r := by
      rw [heq]
      exact congrArg (· ++ _) (Compiler.Trace.compile_eq h.compiler r)
    rw [hanswer]
    split
    · next hon =>
      rw [Request.leader, h.none_of_miss hfind hon]
      rfl
    · rfl
  | some out =>
    obtain ⟨hon, a, ha, heq⟩ := h.first_of_hit hfind
    rw [generate_hit hfind, if_pos hon, Request.leader, ha]
    exact heq.symm

/-! ### Runs -/

theorem key_eq_iff {t : Trace} {r a : Request} : t.key a = t.key r ↔ r.alike a = true := by
  rw [← Compiler.Trace.outputKey_eq_iff (c := t.compiler.compiler)]
  simp [key]

/-- What one request leaves: the same rules, settings, functions and tokens, and a compiler with
    sound caches. -/
structure Answered (t t' : Trace) (r : Request) : Prop where
  rules : t'.overlay.rules = t.overlay.rules
  overlay : t'.overlay.settings = t.overlay.settings
  version : t'.overlay.version = t.overlay.version
  settings : t'.compiler.compiler.settings = t.compiler.compiler.settings
  functions : t'.compiler.compiler.functions = t.compiler.compiler.functions
  tokens : t'.compiler.compiler.tokens = t.compiler.compiler.tokens
  compilerVersion : t'.compiler.compiler.version = t.compiler.compiler.version
  compilerRecent : t'.compiler.recent = t.compiler.recent ++ [r]
  recent : t'.recent = t.recent ++ [r]
  sound : t'.compiler.Sound

namespace Answered

variable {t t' : Trace} {r : Request}

theorem key (h : Answered t t' r) (a : Request) : t'.key a = t.key a := by
  unfold Trace.key Compiler.outputKey
  rw [h.version, h.compilerVersion]

/-- The answers to earlier requests stay. -/
theorem answer (h : Answered t t' r) {a : Request} (ha : a ∈ t.compiler.recent ∨ a = r) :
    t'.answer a = t.answer a := by
  unfold Trace.answer
  rw [Compiler.Trace.source_eq_of_mem h.settings h.compilerRecent ha,
    Compiler.direct_congr h.settings h.functions h.tokens,
    appendix_congr h.rules h.overlay h.settings h.functions h.tokens]

end Answered

/-- A request whose output was stored leaves the caches sound. -/
theorem sound_of_hit {t t' : Trace} {r : Request} (h : t.Sound) (hans : Answered t t' r)
    (houtputs : t'.overlay.outputs = t.overlay.outputs)
    (hfind : t.overlay.settings.caches = true → ∃ b, t.recent.find? r.alike = some b) :
    t'.Sound where
  compiler := hans.sound
  recent a ha := by
    rw [hans.recent, List.mem_append] at ha
    rw [hans.compilerRecent, List.mem_append]
    exact ha.imp_left (h.recent a)
  versions e he := by
    rw [houtputs] at he
    rw [hans.compilerVersion]
    exact h.versions e he
  outputs hon a := by
    rw [hans.overlay] at hon
    obtain ⟨b, hb⟩ := hfind hon
    -- The request is alike to an earlier one, so no request has another first one now.
    rw [hans.key, houtputs, hans.recent, Request.find?_append_of_some hb, h.outputs hon a]
    apply Option.map_congr
    intro c hc
    exact (hans.answer (Or.inl (h.recent c (List.mem_of_find?_eq_some hc)))).symm

/-- A request whose output is stored now leaves the caches sound. -/
theorem sound_of_miss {t t' : Trace} {r : Request} (h : t.Sound) (hans : Answered t t' r)
    (houtputs : t'.overlay.outputs = Cache.insertWhen t.overlay.settings.caches (t.key r)
      (t.answer r) t.overlay.outputs)
    (hfind : t.overlay.settings.caches = true → t.recent.find? r.alike = none) : t'.Sound where
  compiler := hans.sound
  recent a ha := by
    rw [hans.recent, List.mem_append] at ha
    rw [hans.compilerRecent, List.mem_append]
    exact ha.imp_left (h.recent a)
  versions e he := by
    rw [houtputs] at he
    rw [hans.compilerVersion]
    unfold Cache.insertWhen Cache.insert at he
    split at he
    · rcases List.mem_cons.1 he with rfl | he
      · exact Nat.le_refl _
      · exact h.versions e (List.mem_filter.1 he).1
    · exact h.versions e he
  outputs hon a := by
    rw [hans.overlay] at hon
    have hnone := hfind hon
    -- The request is the first of its kind, and its output is stored under its key alone.
    rw [hans.key, houtputs, hon, Cache.insertWhen, if_pos rfl, Cache.find?_insert, hans.recent,
      Request.find?_append_of_none hnone, h.outputs hon a]
    by_cases halike : a.alike r = true
    · rw [if_pos (key_eq_iff.2 halike).symm, if_pos halike, Option.map_some,
        hans.answer (Or.inr rfl)]
    · rw [if_neg (fun hkey => halike (key_eq_iff.1 hkey.symm)), if_neg halike]
      apply Option.map_congr
      intro c hc
      exact (hans.answer (Or.inl (h.recent c (List.mem_of_find?_eq_some hc)))).symm

theorem sound_generate {t : Trace} (h : t.Sound) (r : Request) :
    (t.step (.generate r)).Sound := by
  have hframe := Compiler.compile_frame h.compiler.trees r
  cases hfind : Cache.findWhen? t.overlay.settings.caches (t.key r) t.overlay.outputs with
  | some out =>
    have hafter : t.step (.generate r) =
        ⟨{ t.overlay with counters := t.overlay.counters.bump "cache_hits" },
          ⟨t.compiler.compiler, t.compiler.recent ++ [r]⟩, t.recent ++ [r]⟩ := by
      dsimp only [step]
      rw [generate_hit hfind]
    obtain ⟨_, b, hb, _⟩ := h.first_of_hit hfind
    rw [hafter]
    refine sound_of_hit (r := r) h ⟨rfl, rfl, rfl, rfl, rfl, rfl, rfl, rfl, rfl, ?_⟩ rfl
      (fun _ => ⟨b, hb⟩)
    exact h.compiler.skip (h.recent b (List.mem_of_find?_eq_some hb)) (List.find?_some hb)
  | none =>
    obtain ⟨hsettings, hfunctions, htokens, hversion⟩ := hframe
    obtain ⟨overlayCounters, compilerCounters, heq⟩ :=
      generate_miss ⟨hsettings, hfunctions, htokens⟩ hfind
    rw [Compiler.Trace.compile_eq h.compiler r] at heq
    have hafter : t.step (.generate r) =
        ⟨{ t.overlay with
            outputs := Cache.insertWhen t.overlay.settings.caches (t.key r) (t.answer r)
              t.overlay.outputs
            counters := overlayCounters },
          ⟨{ (t.compiler.compiler.compile r.template r.context).2 with
              counters := compilerCounters }, t.compiler.recent ++ [r]⟩, t.recent ++ [r]⟩ := by
      dsimp only [step]
      rw [heq]
      rfl
    rw [hafter]
    refine sound_of_miss (r := r) h
      ⟨rfl, rfl, rfl, hsettings, hfunctions, htokens, hversion, rfl, rfl, ?_⟩ rfl
      (h.none_of_miss hfind)
    exact (Compiler.Trace.sound_compile h.compiler r).withCounters compilerCounters

/-- Every step leaves the caches sound. -/
theorem sound_step {t : Trace} (h : t.Sound) (op : Op) : (t.step op).Sound := by
  cases op with
  | add rule =>
    show (t.changed (t.overlay.add rule)).Sound
    cases hadd : t.overlay.add rule with
    | none => exact h
    | some o =>
      obtain ⟨-, rfl⟩ := add_eq_some_iff.1 hadd
      exact sound_changed h rfl
  | remove selector =>
    show (t.changed (t.overlay.remove selector)).Sound
    cases hremove : t.overlay.remove selector with
    | none => exact h
    | some o =>
      obtain ⟨-, rfl⟩ := remove_eq_some_iff.1 hremove
      exact sound_changed h rfl
  | clear => exact sound_changed h rfl
  | settings settings => exact sound_changed h rfl
  | tokens set => exact sound_tokens h set
  | generate r => exact sound_generate h r

theorem sound_run {t : Trace} (h : t.Sound) (ops : List Op) : (t.run ops).Sound := by
  induction ops generalizing t with
  | nil => exact h
  | cons op rest ih => exact ih (sound_step h op)

/-- Every answer of a run is what the request gets without caches at that point. -/
def Invisible (t : Trace) (ops : List Op) : Prop :=
  ∀ before r after, ops = before ++ .generate r :: after →
    ((t.run before).overlay.generate (t.run before).compiler.compiler r.template r.context).1 =
      (t.run before).overlay.direct (t.run before).compiler.compiler r

/-- No request of a run gets another output without caches than from the two requests whose
    compiled template and whose rules it gets. -/
def SourcesAgree (t : Trace) (ops : List Op) : Prop :=
  ∀ before r after, ops = before ++ .generate r :: after →
    (t.run before).answer ((t.run before).source r) =
      (t.run before).overlay.direct (t.run before).compiler.compiler r

theorem invisible_iff {t : Trace} (h : t.Sound) (ops : List Op) :
    t.Invisible ops ↔ t.SourcesAgree ops := by
  have hanswer : ∀ before r, ((t.run before).overlay.generate (t.run before).compiler.compiler
      r.template r.context).1 = (t.run before).answer ((t.run before).source r) :=
    fun before r => generate_eq (sound_run h before) r
  constructor
  · intro hall before r after hops
    rw [← hanswer]
    exact hall before r after hops
  · intro hall before r after hops
    rw [hanswer]
    exact hall before r after hops

theorem mem_compiler_recent_step {t : Trace} {op : Op} {a : Request}
    (ha : a ∈ (t.step op).compiler.recent) : a ∈ t.compiler.recent ∨ op = .generate a := by
  have hchanged : ∀ o, a ∈ (t.changed o).compiler.recent → a ∈ t.compiler.recent := by
    intro o ha
    cases o with
    | none => exact ha
    | some o => exact ha
  cases op with
  | add rule => exact Or.inl (hchanged _ ha)
  | remove selector => exact Or.inl (hchanged _ ha)
  | clear => exact Or.inl (hchanged _ ha)
  | settings settings => exact Or.inl (hchanged _ ha)
  | tokens set => cases ha
  | generate r =>
    rcases List.mem_append.1 ha with ha | ha
    · exact Or.inl ha
    · rw [List.mem_singleton.1 ha]
      exact Or.inr rfl

theorem mem_compiler_recent_run {t : Trace} {ops : List Op} {a : Request}
    (ha : a ∈ (t.run ops).compiler.recent) : a ∈ t.compiler.recent ∨ .generate a ∈ ops := by
  induction ops generalizing t with
  | nil => exact Or.inl ha
  | cons op rest ih =>
    rcases ih ha with ha | ha
    · rcases mem_compiler_recent_step ha with ha | rfl
      · exact Or.inl ha
      · exact Or.inr List.mem_cons_self
    · exact Or.inr (List.mem_cons_of_mem _ ha)

/-- Requests that are all plain have no other source than themselves. -/
theorem sourcesAgree_of_plain {t : Trace} (h : t.Sound) (hempty : t.compiler.recent = [])
    {ops : List Op} (hplain : ∀ r, .generate r ∈ ops → r.IsPlain) : t.SourcesAgree ops := by
  intro before r after hops
  have hr : r.IsPlain := hplain r (by rw [hops]; simp)
  have hbelow : ∀ a ∈ (t.run before).compiler.recent, a.IsPlain := by
    intro a ha
    rcases mem_compiler_recent_run ha with ha | ha
    · rw [hempty] at ha
      cases ha
    · exact hplain a (by rw [hops]; exact List.mem_append_left _ ha)
  have hself : (t.run before).source r = r := by
    unfold source
    split
    · exact Request.leader_eq_self hr (fun a ha => hbelow a ((sound_run h before).recent a ha))
    · rfl
  have hcompiled : (t.run before).compiler.source r = r := by
    unfold Compiler.Trace.source
    split
    · exact Request.leader_eq_self hr hbelow
    · rfl
  rw [hself, answer, hcompiled, direct_eq]

end Trace

end Overlay

namespace Compiler.Trace

/-- Every answer of a run is what the request gets without caches at that point. -/
def Invisible (t : Trace) (ops : List Op) : Prop :=
  ∀ before r after, ops = before ++ .compile r :: after →
    ((t.run before).compiler.compile r.template r.context).1 = (t.run before).compiler.direct r

/-- No request of a run gets another output without caches than the first request of the same
    template and leaves since the last change. -/
def SourcesAgree (t : Trace) (ops : List Op) : Prop :=
  ∀ before r after, ops = before ++ .compile r :: after →
    (t.run before).compiler.direct ((t.run before).source r) = (t.run before).compiler.direct r

theorem invisible_iff {t : Trace} (h : t.Sound) (ops : List Op) :
    t.Invisible ops ↔ t.SourcesAgree ops := by
  have hanswer : ∀ before r, ((t.run before).compiler.compile r.template r.context).1 =
      (t.run before).compiler.direct ((t.run before).source r) :=
    fun before r => compile_eq (sound_run h before) r
  constructor
  · intro hall before r after hops
    rw [← hanswer]
    exact hall before r after hops
  · intro hall before r after hops
    rw [hanswer]
    exact hall before r after hops

theorem mem_recent_run {t : Trace} {ops : List Op} {a : Request} (ha : a ∈ (t.run ops).recent) :
    a ∈ t.recent ∨ .compile a ∈ ops := by
  induction ops generalizing t with
  | nil => exact Or.inl ha
  | cons op rest ih =>
    rcases ih ha with ha | ha
    · cases op with
      | tokens set => cases ha
      | functions functions => cases ha
      | settings settings => cases ha
      | clear => cases ha
      | compile r =>
        rcases List.mem_append.1 ha with ha | ha
        · exact Or.inl ha
        · rw [List.mem_singleton.1 ha]
          exact Or.inr List.mem_cons_self
    · exact Or.inr (List.mem_cons_of_mem _ ha)

/-- Requests that are all plain have no other source than themselves. -/
theorem sourcesAgree_of_plain {t : Trace} (hempty : t.recent = []) {ops : List Op}
    (hplain : ∀ r, .compile r ∈ ops → r.IsPlain) : t.SourcesAgree ops := by
  intro before r after hops
  have hr : r.IsPlain := hplain r (by rw [hops]; simp)
  have hself : (t.run before).source r = r := by
    unfold source
    split
    · apply Request.leader_eq_self hr
      intro a ha
      rcases mem_recent_run ha with ha | ha
      · rw [hempty] at ha
        cases ha
      · exact hplain a (by rw [hops]; exact List.mem_append_left _ ha)
    · rfl
  rw [hself]

end Compiler.Trace

/-! ## When caches can be seen -/

/-- **The caches are invisible exactly if requests that are taken for one another agree.** In every
    run of a compiler, and in every run of an overlay over one, each answer is what it would be
    without caches if and only if the earlier requests that the caches answer for it get the same
    output without caches. They do whenever all contexts are given by their leaves. -/
theorem caches_invisible_iff (settings : CompilerSettings) (functions : Functions)
    (overlay : OverlaySettings) :
    (∀ ops, ((Compiler.Trace.start settings functions).Invisible ops ↔
        (Compiler.Trace.start settings functions).SourcesAgree ops) ∧
      ((∀ r, .compile r ∈ ops → r.IsPlain) →
        (Compiler.Trace.start settings functions).Invisible ops)) ∧
    (∀ ops, ((Overlay.Trace.start overlay settings functions).Invisible ops ↔
        (Overlay.Trace.start overlay settings functions).SourcesAgree ops) ∧
      ((∀ r, .generate r ∈ ops → r.IsPlain) →
        (Overlay.Trace.start overlay settings functions).Invisible ops)) := by
  have hcompiler := Compiler.Trace.sound_start settings functions
  have hoverlay := Overlay.Trace.sound_start overlay settings functions
  constructor
  · intro ops
    have hiff := Compiler.Trace.invisible_iff hcompiler ops
    exact ⟨hiff, fun hplain => hiff.2 (Compiler.Trace.sourcesAgree_of_plain rfl hplain)⟩
  · intro ops
    have hiff := Overlay.Trace.invisible_iff hoverlay ops
    exact ⟨hiff, fun hplain => hiff.2 (Overlay.Trace.sourcesAgree_of_plain hoverlay rfl hplain)⟩

/-- A point in a key looks like a step into a map: the second context has the leaves of the first,
    but holds a map where the first holds nothing. -/
theorem caches_visible :
    ¬ (Compiler.Trace.start ⟨true, true, true⟩ Functions.builtin).Invisible
      [.tokens [], .compile ⟨"x { y: $a }", [("a.b", .int 1)]⟩,
        .compile ⟨"x { y: $a }", [("a", .map [("b", .int 1)])]⟩] := by
  intro h
  have hsecond := h [.tokens [], .compile ⟨"x { y: $a }", [("a.b", .int 1)]⟩]
    ⟨"x { y: $a }", [("a", .map [("b", .int 1)])]⟩ [] rfl
  revert hsecond
  decide +kernel

end Theming.Style
