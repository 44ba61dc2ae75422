import Theming.Style.Overlay

set_option autoImplicit false

/-! # What the caches answer

A compiler stores its outputs under the template and the leaves of the context, so it takes two
requests for one another when their templates are equal and their contexts have the same leaves
(`Request.alike`). The first of them since the last change is answered, and every later one gets the
answer of the first (`Request.leader`).

`Compiler.Trace.compile_eq` says so for any run of a compiler: an answer is the one that the leader
of the request would get without caches. -/

namespace Theming.Style

open Sheet (Node)

/-! ## Requests -/

/-- What is compiled: a template in a context. -/
structure Request where
  template : String
  context : TokenSet

namespace Request

/-- Whether the caches take two requests for one another. -/
def alike (r a : Request) : Bool :=
  a.template = r.template && a.context.flatten = r.context.flatten

/-- The first of some requests that is alike; the request itself if there is none. -/
def leader (earlier : List Request) (r : Request) : Request := (earlier.find? r.alike).getD r

theorem alike_iff {r a : Request} :
    r.alike a = true ↔ a.template = r.template ∧ a.context.flatten = r.context.flatten := by
  simp [alike]

theorem alike_self (r : Request) : r.alike r = true := alike_iff.2 ⟨rfl, rfl⟩

/-- Requests alike are alike to the same requests. -/
theorem alike_congr {r a : Request} (h : r.alike a = true) : a.alike = r.alike := by
  obtain ⟨htemplate, hleaves⟩ := alike_iff.1 h
  funext b
  simp only [alike, htemplate, hleaves]

theorem alike_leader (earlier : List Request) (r : Request) : r.alike (r.leader earlier) = true := by
  unfold leader
  cases h : earlier.find? r.alike with
  | none => exact alike_self r
  | some a => exact List.find?_some h

theorem leader_mem (earlier : List Request) (r : Request) :
    r.leader earlier ∈ earlier ∨ r.leader earlier = r := by
  unfold leader
  cases h : earlier.find? r.alike with
  | none => exact Or.inr rfl
  | some a => exact Or.inl (List.mem_of_find?_eq_some h)

/-- A request that has a leader leads none itself. -/
theorem find?_append_of_some {earlier : List Request} {r b : Request}
    (hb : earlier.find? r.alike = some b) (a : Request) :
    (earlier ++ [r]).find? a.alike = earlier.find? a.alike := by
  rw [List.find?_append]
  cases h : a.alike r with
  | false => rw [List.find?_cons_of_neg (by simp [h]), List.find?_nil, Option.or_none]
  | true => rw [← alike_congr h, hb, Option.some_or]

/-- A request without a leader leads those that have none either and are alike. -/
theorem find?_append_of_none {earlier : List Request} {r : Request}
    (hr : earlier.find? r.alike = none) (a : Request) :
    (earlier ++ [r]).find? a.alike = if a.alike r then some r else earlier.find? a.alike := by
  rw [List.find?_append]
  cases h : a.alike r with
  | false =>
    rw [List.find?_cons_of_neg (by simp [h]), List.find?_nil, Option.or_none]
    rfl
  | true =>
    rw [← alike_congr h, hr, Option.none_or, List.find?_cons_of_pos (alike_self r)]
    rfl

/-- What comes later leads no request that has a leader. -/
theorem leader_append {earlier later : List Request} {r : Request}
    (hmem : ∃ b ∈ earlier, r.alike b = true) :
    r.leader (earlier ++ later) = r.leader earlier := by
  unfold leader
  obtain ⟨b, hb, halike⟩ := hmem
  rw [List.find?_append]
  cases hfind : earlier.find? r.alike with
  | none => exact absurd halike (List.find?_eq_none.1 hfind b hb)
  | some c => rfl

end Request

/-! ## Without caches -/

namespace Compiler

/-- The compiler with its caches turned off. -/
def uncached (c : Compiler) : Compiler :=
  { c with settings := { c.settings with caches := false } }

/-- What a request gets without caches. -/
def direct (c : Compiler) (r : Request) : String := (c.uncached.compile r.template r.context).1

theorem direct_eq (c : Compiler) (r : Request) :
    c.direct r = Sheet.serialize c.settings.layout
      (Style.substitute r.context c.tokens c.functions (Sheet.parse r.template)).1 := rfl

/-- Without caches, an answer depends on settings, functions and tokens only. -/
theorem direct_congr {c c' : Compiler} (hsettings : c'.settings = c.settings)
    (hfunctions : c'.functions = c.functions) (htokens : c'.tokens = c.tokens) (r : Request) :
    c'.direct r = c.direct r := by
  rw [direct_eq, direct_eq, hsettings, hfunctions, htokens]

/-! ## Runs of a compiler -/

/-- What can be done with a compiler. -/
inductive Op where
  | tokens (set : TokenSet)
  | functions (functions : Functions)
  | settings (settings : CompilerSettings)
  | clear
  | compile (request : Request)

/-- A compiler with the requests that it answered since the last change, in order. -/
structure Trace where
  compiler : Compiler
  recent : List Request

namespace Trace

/-- A compiler that has answered nothing yet. -/
def start (settings : CompilerSettings) (functions : Functions) : Trace :=
  ⟨Compiler.start settings functions, []⟩

/-- Does one thing. -/
def step (t : Trace) : Op → Trace
  | .tokens set => ⟨t.compiler.withTokens set, []⟩
  | .functions functions => ⟨t.compiler.withFunctions functions, []⟩
  | .settings settings => ⟨t.compiler.withSettings settings, []⟩
  | .clear => ⟨t.compiler.clearCaches, []⟩
  | .compile r => ⟨(t.compiler.compile r.template r.context).2, t.recent ++ [r]⟩

/-- Does one thing after the other. -/
def run (t : Trace) (ops : List Op) : Trace := ops.foldl step t

/-- The request whose answer a request gets. -/
def source (t : Trace) (r : Request) : Request :=
  if t.compiler.settings.caches then r.leader t.recent else r

/-! ## What the caches hold -/

/-- Trees are those of their templates; the output under the current version of the tokens is the
    answer to the first request that it was made for. -/
structure Sound (t : Trace) : Prop where
  trees : ∀ template tree,
    Cache.find? template t.compiler.trees = some tree → tree = Sheet.parse template
  outputs : t.compiler.settings.caches = true → ∀ r : Request,
    Cache.find? (t.compiler.outputKey r.template r.context) t.compiler.outputs =
      (t.recent.find? r.alike).map t.compiler.direct

theorem sound_start (settings : CompilerSettings) (functions : Functions) :
    (start settings functions).Sound where
  trees _ _ h := by cases h
  outputs _ _ := rfl

end Trace

/-! ### One compilation -/

/-- A tree is read or comes from the cache. -/
theorem parse_eq {c : Compiler}
    (h : ∀ template tree, Cache.find? template c.trees = some tree → tree = Sheet.parse template)
    (template : String) :
    (c.parse template).1 = Sheet.parse template ∧
      (∀ other tree, Cache.find? other (c.parse template).2.trees = some tree →
        tree = Sheet.parse other) ∧
      ∃ trees counters, (c.parse template).2 = { c with trees := trees, counters := counters } := by
  unfold parse
  cases hfind : Cache.findWhen? c.settings.caches template c.trees with
  | some tree =>
    refine ⟨?_, h, c.trees, _, rfl⟩
    unfold Cache.findWhen? at hfind
    split at hfind
    · exact h template tree hfind
    · cases hfind
  | none =>
    refine ⟨rfl, ?_, _, _, rfl⟩
    -- A tree that is stored now is the one that was read.
    intro other tree hother
    obtain ⟨heq, rfl⟩ | hbefore := Cache.find?_insertWhen_cases hother
    · rw [heq]
    · exact h other tree hbefore

theorem compile_hit {c : Compiler} {r : Request} {out : String}
    (h : Cache.findWhen? c.settings.caches (c.outputKey r.template r.context) c.outputs = some out) :
    c.compile r.template r.context =
      (out, { c with counters := c.counters.bump "cache_hits" }) := by
  unfold compile
  dsimp only
  rw [h]

/-- A request without a stored answer gets its own, which is stored. -/
theorem compile_miss {c : Compiler} {r : Request}
    (htrees : ∀ template tree,
      Cache.find? template c.trees = some tree → tree = Sheet.parse template)
    (h : Cache.findWhen? c.settings.caches (c.outputKey r.template r.context) c.outputs = none) :
    ∃ trees counters,
      (∀ template tree, Cache.find? template trees = some tree → tree = Sheet.parse template) ∧
      c.compile r.template r.context =
        (c.direct r,
          { c with
            trees := trees
            outputs := Cache.insertWhen c.settings.caches (c.outputKey r.template r.context)
              (c.direct r) c.outputs
            counters := counters }) := by
  obtain ⟨htree, hsound, trees, counters, hafter⟩ :=
    parse_eq (c := { c with counters := c.counters.bump "cache_misses" }) htrees r.template
  rw [hafter] at hsound
  unfold compile
  dsimp only
  rw [h]
  dsimp only [compileTree]
  -- All that matters of reading is the tree and what it leaves of the compiler.
  generalize Compiler.parse { c with counters := c.counters.bump "cache_misses" } r.template = p
    at htree hafter
  obtain ⟨tree, c'⟩ := p
  dsimp only at htree hafter
  subst htree hafter
  exact ⟨trees, _, hsound, rfl⟩

/-- A compilation changes nothing that an answer without caches depends on. -/
theorem compile_frame {c : Compiler}
    (htrees : ∀ template tree,
      Cache.find? template c.trees = some tree → tree = Sheet.parse template) (r : Request) :
    (c.compile r.template r.context).2.settings = c.settings ∧
      (c.compile r.template r.context).2.functions = c.functions ∧
      (c.compile r.template r.context).2.tokens = c.tokens ∧
      (c.compile r.template r.context).2.version = c.version := by
  cases h : Cache.findWhen? c.settings.caches (c.outputKey r.template r.context) c.outputs with
  | some out =>
    rw [compile_hit h]
    exact ⟨rfl, rfl, rfl, rfl⟩
  | none =>
    obtain ⟨trees, counters, _, heq⟩ := compile_miss htrees h
    rw [heq]
    exact ⟨rfl, rfl, rfl, rfl⟩

namespace Trace

/-! ### Runs -/

theorem outputKey_eq_iff {c : Compiler} {r a : Request} :
    c.outputKey a.template a.context = c.outputKey r.template r.context ↔ r.alike a = true := by
  rw [Request.alike_iff]
  simp [outputKey]

/-- What is found was stored for the first request that is alike. -/
theorem Sound.first_of_hit {t : Trace} (h : t.Sound) {r : Request} {out : String}
    (hfind : Cache.findWhen? t.compiler.settings.caches
      (t.compiler.outputKey r.template r.context) t.compiler.outputs = some out) :
    t.compiler.settings.caches = true ∧
      ∃ a, t.recent.find? r.alike = some a ∧ t.compiler.direct a = out := by
  obtain ⟨hon, hstored⟩ := Cache.findWhen?_eq_some_iff.1 hfind
  rw [h.outputs hon r, Option.map_eq_some_iff] at hstored
  exact ⟨hon, hstored⟩

/-- If nothing is found, no request was alike. -/
theorem Sound.none_of_miss {t : Trace} (h : t.Sound) {r : Request}
    (hfind : Cache.findWhen? t.compiler.settings.caches
      (t.compiler.outputKey r.template r.context) t.compiler.outputs = none)
    (hon : t.compiler.settings.caches = true) : t.recent.find? r.alike = none := by
  rw [hon, Cache.findWhen?, if_pos rfl, h.outputs hon r, Option.map_eq_none_iff] at hfind
  exact hfind

/-- **An answer is the one that the leader of the request gets without caches.** -/
theorem compile_eq {t : Trace} (h : t.Sound) (r : Request) :
    (t.compiler.compile r.template r.context).1 = t.compiler.direct (t.source r) := by
  unfold source
  cases hfind : Cache.findWhen? t.compiler.settings.caches
      (t.compiler.outputKey r.template r.context) t.compiler.outputs with
  | none =>
    obtain ⟨trees, counters, _, heq⟩ := compile_miss h.trees hfind
    rw [heq]
    split
    · next hon =>
      rw [Request.leader, h.none_of_miss hfind hon]
      rfl
    · rfl
  | some out =>
    obtain ⟨hon, a, ha, heq⟩ := h.first_of_hit hfind
    rw [compile_hit hfind, if_pos hon, Request.leader, ha]
    exact heq.symm

theorem sound_compile {t : Trace} (h : t.Sound) (r : Request) : (t.step (.compile r)).Sound := by
  obtain ⟨hsettings, hfunctions, htokens, hversion⟩ := compile_frame h.trees r
  have hdirect : (t.step (.compile r)).compiler.direct = t.compiler.direct :=
    funext (direct_congr hsettings hfunctions htokens)
  have hrecent : (t.step (.compile r)).recent = t.recent ++ [r] := rfl
  cases hfind : Cache.findWhen? t.compiler.settings.caches
      (t.compiler.outputKey r.template r.context) t.compiler.outputs with
  | some out =>
    have hafter : (t.step (.compile r)).compiler =
        { t.compiler with counters := t.compiler.counters.bump "cache_hits" } := by
      show (t.compiler.compile r.template r.context).2 = _
      rw [compile_hit hfind]
    obtain ⟨hon, b, hb, _⟩ := h.first_of_hit hfind
    refine ⟨fun template tree htree => h.trees template tree (by rwa [hafter] at htree), ?_⟩
    -- One more request alike does not change which one is the first.
    intro _ a
    rw [hdirect, hrecent, hafter, Request.find?_append_of_some hb, ← h.outputs hon a]
    rfl
  | none =>
    obtain ⟨trees, counters, htrees, heq⟩ := compile_miss h.trees hfind
    have hafter : (t.step (.compile r)).compiler =
        { t.compiler with
          trees := trees
          outputs := Cache.insertWhen t.compiler.settings.caches
            (t.compiler.outputKey r.template r.context) (t.compiler.direct r) t.compiler.outputs
          counters := counters } := by
      show (t.compiler.compile r.template r.context).2 = _
      rw [heq]
    refine ⟨fun template tree htree => htrees template tree (by rwa [hafter] at htree), ?_⟩
    intro hon a
    rw [hafter] at hon
    have hon : t.compiler.settings.caches = true := hon
    have hkey : ∀ b : Request, (t.step (.compile r)).compiler.outputKey b.template b.context =
        t.compiler.outputKey b.template b.context := by
      intro b
      rw [hafter]
      rfl
    have houtputs : (t.step (.compile r)).compiler.outputs = Cache.insert
        (t.compiler.outputKey r.template r.context) (t.compiler.direct r) t.compiler.outputs := by
      rw [hafter]
      dsimp only
      rw [hon, Cache.insertWhen, if_pos rfl]
    rw [hdirect, hrecent, hkey, houtputs, Cache.find?_insert,
      Request.find?_append_of_none (h.none_of_miss hfind hon), h.outputs hon a]
    -- The new output answers exactly the requests that are alike.
    by_cases halike : a.alike r = true
    · rw [if_pos (outputKey_eq_iff.2 halike).symm, if_pos halike]
      rfl
    · rw [if_neg (fun hkey => halike (outputKey_eq_iff.1 hkey.symm)), if_neg halike]

/-- Every step leaves the caches sound. -/
theorem sound_step {t : Trace} (h : t.Sound) (op : Op) : (t.step op).Sound := by
  cases op with
  | tokens set => exact ⟨h.trees, fun _ _ => rfl⟩
  | functions functions => exact ⟨fun _ _ hfind => (by cases hfind), fun _ _ => rfl⟩
  | settings settings => exact ⟨fun _ _ hfind => (by cases hfind), fun _ _ => rfl⟩
  | clear => exact ⟨fun _ _ hfind => (by cases hfind), fun _ _ => rfl⟩
  | compile r => exact sound_compile h r

theorem sound_run {t : Trace} (h : t.Sound) (ops : List Op) : (t.run ops).Sound := by
  induction ops generalizing t with
  | nil => exact h
  | cons op rest ih => exact ih (sound_step h op)

end Trace

end Compiler

end Theming.Style
