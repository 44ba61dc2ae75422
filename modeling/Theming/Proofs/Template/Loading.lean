import Theming.Template.Loader

set_option autoImplicit false

/-! # Stale texts

A loaded text is kept until its own template, one of the templates that were put into it, or what
its variables and calls come to is changed. It depends on more: a name with an extension may have
fallen back to another template, and a directive may have stayed because there was nothing to put in
its place. A change of such a template leaves the text in the cache (`Loader.Overlooks`).

Main statement: `Loader.loads_current_iff`. Along a run, every load gives what it gives past the
cache exactly if no change is overlooked; none is where every load finds its template and the
imported ones under the very names that are given. -/

namespace Theming.Template

namespace Loader

/-! ## Runs -/

/-- What can be done with a loader. -/
inductive Op where
  | register (name content : String)
  | save (name content category : String)
  | delete (name : String)
  | clear
  | clearCache
  | setVariables (pairs : List (String × Value))
  | withVariables (bindings : TokenSet)
  | withFunctions (functions : Functions)
  | tryLoad (name : String) (resolves : Bool)
  | load (name : String) (resolves : Bool)

/-- Does one thing; what is refused changes nothing. -/
def step (l : Loader) : Op → Loader
  | .register name content => l.register name content
  | .save name content category => (l.save name content category).toOption.getD l
  | .delete name => (l.delete name).getD l
  | .clear => l.clear
  | .clearCache => l.clearCache
  | .setVariables pairs => l.setVariables pairs
  | .withVariables bindings => l.withVariables bindings
  | .withFunctions functions => l.withFunctions functions
  | .tryLoad name resolves => (l.tryLoad name resolves).2
  | .load name resolves => (l.load name resolves).2

/-- Does one thing after the other. -/
def run (l : Loader) (ops : List Op) : Loader := ops.foldl step l

/-- The template that is registered, stored or removed. -/
def Op.template? : Op → Option String
  | .register name _ => some name
  | .save name _ _ => some name
  | .delete name => some name
  | _ => none

/-- The template that is loaded. -/
def Op.loaded? : Op → Option String
  | .tryLoad name _ => some name
  | .load name _ => some name
  | _ => none

/-! ## Loading past the cache -/

/-- What a load gives if the cache is emptied just before it. -/
def fresh (l : Loader) (name : String) (resolves : Bool) : Except StoreError String :=
  (l.clearCache.tryLoad name resolves).1

theorem fresh_eq (l : Loader) (name : String) (resolves : Bool) :
    l.fresh name resolves =
      (l.raw name).map (fun raw => (l.prepare name raw resolves).1.text) := by
  unfold fresh tryLoad
  have hraw : l.clearCache.raw name = l.raw name := rfl
  simp only [clearCache, Cache.find?]
  rw [show Loader.raw { l with cache := [] } name = l.raw name from hraw]
  cases l.raw name with
  | error e => rfl
  | ok raw => rfl

theorem fresh_of_raw? {l : Loader} {name raw : String} (h : l.raw? name = some raw)
    (resolves : Bool) : l.fresh name resolves = .ok (l.prepare name raw resolves).1.text := by
  rw [fresh_eq, Loader.raw, h]
  rfl

theorem fresh_of_none {l : Loader} {name : String} (h : l.raw? name = none) (resolves : Bool) :
    l.fresh name resolves = .error (.notFound name) := by
  rw [fresh_eq, Loader.raw, h]
  rfl

/-- Loading past the cache looks at templates, variables and functions only. -/
theorem fresh_congr {l l' : Loader} (hstore : l'.store = l.store)
    (hregistered : l'.registered = l.registered) (hbindings : l'.bindings = l.bindings)
    (hfunctions : l'.functions = l.functions) : l'.fresh = l.fresh := by
  obtain ⟨store, registered, bindings, functions, _, _⟩ := l
  obtain ⟨_, _, _, _, _, _⟩ := l'
  cases hstore; cases hregistered; cases hbindings; cases hfunctions
  funext name resolves
  rw [fresh_eq, fresh_eq]
  rfl

/-! ### What a text depends on -/

theorem raw?_congr {l l' : Loader} (hstore : l'.store = l.store)
    (hregistered : l'.registered = l.registered) : l'.raw? = l.raw? := by
  funext name
  unfold raw? under?
  rw [hstore, hregistered]

/-- A template that is there under exactly the name is what the name stands for. -/
theorem raw?_of_under? {l : Loader} {name text : String} (h : l.under? name = some text) :
    l.raw? name = some text := by
  unfold raw?
  rw [h]

theorem mem_targets_iff {text target : String} :
    target ∈ targets text ↔ ∃ spelling, Part.directive spelling target ∈ parts text.toList := by
  simp only [targets, List.mem_filterMap]
  constructor
  · rintro ⟨part, hpart, heq⟩
    cases part with
    | char c => cases heq
    | directive spelling other =>
      cases heq
      exact ⟨spelling, hpart⟩
  · rintro ⟨spelling, hpart⟩
    exact ⟨_, hpart, rfl⟩

theorem expand_congr {l l' : Loader} {name text : String}
    (h : ∀ target ∈ targets text, target ≠ name → l'.raw? target = l.raw? target) :
    l'.expand name text = l.expand name text := by
  have hparts : (parts text.toList).map (l'.replacement name) =
      (parts text.toList).map (l.replacement name) := by
    apply List.map_congr_left
    intro part hpart
    cases part with
    | char c => rfl
    | directive spelling target =>
      simp only [replacement]
      split
      · rfl
      · next hne => rw [h target (mem_targets_iff.2 ⟨spelling, hpart⟩) hne]
  unfold expand
  rw [hparts]

/-- A text stays what it was if the imported templates do, and so do variables and functions if it
    was resolved. -/
theorem prepare_congr {l l' : Loader} {name raw : String} {resolves : Bool}
    (htargets : ∀ target ∈ targets (Sheet.plainForm raw),
      target ≠ name → l'.raw? target = l.raw? target)
    (hresolves : resolves = true → l'.bindings = l.bindings ∧ l'.functions = l.functions) :
    l'.prepare name raw resolves = l.prepare name raw resolves := by
  unfold prepare
  rw [expand_congr htargets]
  cases resolves with
  | false => rfl
  | true =>
    obtain ⟨hbindings, hfunctions⟩ := hresolves rfl
    unfold resolve
    rw [hbindings, hfunctions]

theorem imports_prepare (l : Loader) (name raw : String) (resolves : Bool) :
    (l.prepare name raw resolves).1.imports = (l.expand name (Sheet.plainForm raw)).imports := by
  cases resolves <;> rfl

/-- A template that is imported and there is recorded. -/
theorem mem_imports {l : Loader} {name raw target text : String} {resolves : Bool}
    (htarget : target ∈ targets (Sheet.plainForm raw)) (hne : target ≠ name)
    (hraw : l.raw? target = some text) :
    target ∈ (l.prepare name raw resolves).1.imports := by
  rw [imports_prepare]
  obtain ⟨spelling, hpart⟩ := mem_targets_iff.1 htarget
  refine List.mem_filterMap.2 ⟨_, List.mem_map_of_mem hpart, ?_⟩
  simp only [replacement, if_neg hne, hraw]

/-! ## Loading through the cache -/

theorem tryLoad_of_find? {l : Loader} {name : String} {resolves : Bool} {x : Loaded}
    (h : Cache.find? (name, resolves) l.cache = some x) :
    l.tryLoad name resolves =
      (.ok x.text, { l with counters := l.counters.bump "cache_hits" }) := by
  unfold tryLoad
  rw [h]

theorem tryLoad_of_raw?_none {l : Loader} {name : String} {resolves : Bool}
    (h : Cache.find? (name, resolves) l.cache = none) (hraw : l.raw? name = none) :
    l.tryLoad name resolves = (.error (.notFound name), l) := by
  unfold tryLoad
  rw [h]
  dsimp only [Loader.raw]
  rw [hraw]

/-- What is not in the cache is loaded, and put there. -/
theorem tryLoad_of_raw? {l : Loader} {name raw : String} {resolves : Bool}
    (h : Cache.find? (name, resolves) l.cache = none) (hraw : l.raw? name = some raw) :
    ∃ counters, l.tryLoad name resolves =
      (.ok (l.prepare name raw resolves).1.text,
        { l with
          cache := Cache.insert (name, resolves) (l.prepare name raw resolves).1 l.cache
          counters := counters }) := by
  unfold tryLoad
  rw [h]
  dsimp only [Loader.raw]
  rw [hraw]
  exact ⟨_, rfl⟩

/-- What a load leaves: the same templates, variables and functions, and the cache or the cache with
    the text of a template that is there. -/
theorem tryLoad_spec (l : Loader) (name : String) (resolves : Bool) :
    ∃ cache counters, (l.tryLoad name resolves).2 = { l with cache := cache, counters := counters } ∧
      (cache = l.cache ∨ ∃ raw, l.raw? name = some raw ∧
        cache = Cache.insert (name, resolves) (l.prepare name raw resolves).1 l.cache) := by
  cases hfind : Cache.find? (name, resolves) l.cache with
  | some x =>
    rw [tryLoad_of_find? hfind]
    exact ⟨l.cache, _, rfl, Or.inl rfl⟩
  | none =>
    cases hraw : l.raw? name with
    | none =>
      rw [tryLoad_of_raw?_none hfind hraw]
      exact ⟨l.cache, l.counters, rfl, Or.inl rfl⟩
    | some raw =>
      obtain ⟨counters, heq⟩ := tryLoad_of_raw? hfind hraw
      rw [heq]
      exact ⟨_, counters, rfl, Or.inr ⟨raw, rfl, rfl⟩⟩

theorem load_spec (l : Loader) (name : String) (resolves : Bool) :
    ∃ counters, (l.load name resolves).2 =
      { (l.tryLoad name resolves).2 with counters := counters } := by
  unfold load
  cases h : l.tryLoad name resolves with
  | mk answer l' =>
    cases answer with
    | ok text => exact ⟨_, rfl⟩
    | error e => exact ⟨_, rfl⟩

/-- Every load gives what it gives past the cache. -/
def Current (l : Loader) : Prop :=
  ∀ name resolves, (l.tryLoad name resolves).1 = l.fresh name resolves

theorem current_iff {l : Loader} (h : Cache.Distinct l.cache) :
    l.Current ↔ ∀ e ∈ l.cache, l.fresh e.1.1 e.1.2 = .ok e.2.text := by
  constructor
  · rintro hcurrent ⟨⟨name, resolves⟩, x⟩ he
    have hload := hcurrent name resolves
    rw [tryLoad_of_find? ((Cache.find?_eq_some_iff h).2 he)] at hload
    exact hload.symm
  · intro hall name resolves
    cases hfind : Cache.find? (name, resolves) l.cache with
    | some x =>
      rw [tryLoad_of_find? hfind]
      exact (hall _ ((Cache.find?_eq_some_iff h).1 hfind)).symm
    | none =>
      cases hraw : l.raw? name with
      | none => rw [tryLoad_of_raw?_none hfind hraw, fresh_of_none hraw]
      | some raw =>
        obtain ⟨counters, heq⟩ := tryLoad_of_raw? hfind hraw
        rw [heq, fresh_of_raw? hraw]

/-! ## Changes -/

/-- A change is overlooked: a text stays in the cache although its template comes to something else
    now. -/
def Overlooks (l : Loader) (op : Op) : Prop :=
  ∃ name, op.template? = some name ∧
    ∃ e ∈ l.cache, e.1.1 ≠ name ∧ name ∉ e.2.imports ∧
      (l.step op).fresh e.1.1 e.1.2 ≠ l.fresh e.1.1 e.1.2

theorem mem_invalidate_iff {l : Loader} {name : String} {e : (String × Bool) × Loaded} :
    e ∈ (l.invalidate name).cache ↔ e ∈ l.cache ∧ e.1.1 ≠ name ∧ name ∉ e.2.imports := by
  obtain ⟨⟨cached, resolves⟩, x⟩ := e
  simp [invalidate]

/-- A change of a template is refused, or forgets the texts that are known to depend on it. -/
theorem step_of_template? {l : Loader} {op : Op} {name : String} (h : op.template? = some name) :
    l.step op = l ∨
      ((l.step op).cache = (l.invalidate name).cache ∧ (l.step op).bindings = l.bindings ∧
        (l.step op).functions = l.functions ∧
        ∀ other, other ≠ name → (l.step op).under? other = l.under? other) := by
  cases op with
  | register _ content =>
    cases h
    refine Or.inr ⟨rfl, rfl, rfl, fun other hne => ?_⟩
    simp only [step, register, under?, Table.find?_insert, if_neg hne]
    rfl
  | save _ content category =>
    cases h
    simp only [step, save, Store.write]
    split
    · refine Or.inr ⟨rfl, rfl, rfl, fun other hne => ?_⟩
      simp only [Except.map, Except.toOption, Option.getD_some, under?,
        Table.find?_erase_of_ne hne, Table.find?_insert, if_neg hne]
    · exact Or.inl rfl
  | delete _ =>
    cases h
    simp only [step, delete]
    split
    · refine Or.inr ⟨rfl, rfl, rfl, fun other hne => ?_⟩
      simp only [Option.getD_some, under?, Table.find?_erase_of_ne hne]
    · exact Or.inl rfl
  | _ => cases h

/-- A change of anything but a template forgets every text, or those with replaced variables. -/
theorem step_of_no_template {l : Loader} {op : Op} (htemplate : op.template? = none)
    (hload : op.loaded? = none) :
    (l.step op).cache = [] ∨ ((l.step op).store = l.store ∧
      (l.step op).registered = l.registered ∧ (l.step op).functions = l.functions ∧
      (l.step op).cache = l.dropResolved.cache) := by
  cases op with
  | register _ _ | save _ _ _ | delete _ => cases htemplate
  | tryLoad _ _ | load _ _ => cases hload
  | clear | clearCache | withFunctions _ => exact Or.inl rfl
  | setVariables _ | withVariables _ => exact Or.inr ⟨rfl, rfl, rfl, rfl⟩

/-- A load changes the cache only, by the text of a template that is there. -/
theorem step_of_loaded? {l : Loader} {op : Op} {name : String} (h : op.loaded? = some name) :
    ∃ resolves cache counters, l.step op = { l with cache := cache, counters := counters } ∧
      (cache = l.cache ∨ ∃ raw, l.raw? name = some raw ∧
        cache = Cache.insert (name, resolves) (l.prepare name raw resolves).1 l.cache) := by
  cases op with
  | tryLoad _ resolves =>
    cases h
    exact ⟨resolves, tryLoad_spec l name resolves⟩
  | load _ resolves =>
    cases h
    obtain ⟨cache, counters, heq, hcache⟩ := tryLoad_spec l name resolves
    obtain ⟨counters', heq'⟩ := load_spec l name resolves
    refine ⟨resolves, cache, counters', ?_, hcache⟩
    show (l.load name resolves).2 = _
    rw [heq', heq]
  | _ => cases h

theorem fresh_of_loaded? {l : Loader} {op : Op} {name : String} (h : op.loaded? = some name) :
    (l.step op).fresh = l.fresh := by
  obtain ⟨resolves, cache, counters, heq, _⟩ := step_of_loaded? (l := l) h
  rw [heq]
  exact fresh_congr rfl rfl rfl rfl

theorem mem_dropResolved_iff {l : Loader} {e : (String × Bool) × Loaded} :
    e ∈ l.dropResolved.cache ↔ e ∈ l.cache ∧ e.1.2 = false := by
  obtain ⟨⟨cached, resolves⟩, x⟩ := e
  simp [dropResolved]

theorem distinct_step {l : Loader} (h : Cache.Distinct l.cache) (op : Op) :
    Cache.Distinct (l.step op).cache := by
  cases htemplate : op.template? with
  | some name =>
    rcases step_of_template? (l := l) htemplate with heq | ⟨hcache, _⟩
    · rwa [heq]
    · rw [hcache]
      exact Cache.distinct_filter h _
  | none =>
    cases hload : op.loaded? with
    | some name =>
      obtain ⟨resolves, cache, counters, heq, hcache⟩ := step_of_loaded? (l := l) hload
      rw [heq]
      rcases hcache with rfl | ⟨raw, _, rfl⟩
      · exact h
      · exact Cache.distinct_insert h _ _
    | none =>
      rcases step_of_no_template (l := l) htemplate hload with hcache | ⟨_, _, _, hcache⟩
      · rw [hcache]
        exact List.nodup_nil
      · rw [hcache]
        exact Cache.distinct_filter h _

theorem not_overlooks_of_template?_eq_none {l : Loader} {op : Op} (h : op.template? = none) :
    ¬ l.Overlooks op := by
  rintro ⟨name, hname, _⟩
  rw [h] at hname
  cases hname

/-- **One step keeps every load right exactly if it overlooks nothing.** -/
theorem current_step_iff {l : Loader} (hdistinct : Cache.Distinct l.cache) (h : l.Current)
    (op : Op) : (l.step op).Current ↔ ¬ l.Overlooks op := by
  have hfresh := (current_iff hdistinct).1 h
  rw [current_iff (distinct_step hdistinct op)]
  cases htemplate : op.template? with
  | some name =>
    rcases step_of_template? (l := l) htemplate with heq | ⟨hcache, _, _, _⟩
    · -- Refused: nothing has changed.
      rw [heq]
      refine ⟨fun _ => ?_, fun _ => hfresh⟩
      rintro ⟨_, _, e, _, _, _, hne⟩
      exact hne (by rw [heq])
    · rw [hcache]
      constructor
      · rintro hall ⟨other, hother, e, he, hname, himports, hne⟩
        obtain rfl : name = other := Option.some.inj (htemplate.symm.trans hother)
        exact hne ((hall e (mem_invalidate_iff.2 ⟨he, hname, himports⟩)).trans (hfresh e he).symm)
      · intro hnone e he
        obtain ⟨he, hname, himports⟩ := mem_invalidate_iff.1 he
        rw [← hfresh e he]
        exact Classical.byContradiction
          (fun hne => hnone ⟨name, htemplate, e, he, hname, himports, hne⟩)
  | none =>
    refine ⟨fun _ => not_overlooks_of_template?_eq_none htemplate, fun _ => ?_⟩
    cases hload : op.loaded? with
    | some name =>
      rw [fresh_of_loaded? hload]
      obtain ⟨resolves, cache, counters, heq, hcache⟩ := step_of_loaded? (l := l) hload
      rw [heq]
      rcases hcache with rfl | ⟨raw, hraw, rfl⟩
      · exact hfresh
      · intro e he
        rcases Cache.mem_insert_iff.1 he with rfl | ⟨he, _⟩
        · exact fresh_of_raw? hraw resolves
        · exact hfresh e he
    | none =>
      rcases step_of_no_template (l := l) htemplate hload with
        hcache | ⟨hstore, hregistered, hfunctions, hcache⟩
      · rw [hcache]
        intro e he
        cases he
      · rw [hcache]
        intro e he
        obtain ⟨he, hresolves⟩ := mem_dropResolved_iff.1 he
        have hraw := raw?_congr hstore hregistered
        -- A text whose variables stay does not look at them.
        have hprepare : ∀ raw, (l.step op).prepare e.1.1 raw false = l.prepare e.1.1 raw false :=
          fun raw => prepare_congr (fun _ _ _ => by rw [hraw]) (fun hc => by cases hc)
        rw [← hfresh e he, hresolves, fresh_eq, fresh_eq, Loader.raw, Loader.raw, hraw]
        simp only [hprepare]

/-! ## Loads by the very names -/

/-- A template is there under exactly the name, and so is every other one that it imports. -/
def IsDirect (l : Loader) (name raw : String) : Prop :=
  l.under? name = some raw ∧
    ∀ target ∈ targets (Sheet.plainForm raw), target ≠ name → (l.under? target).isSome

/-- Each cached text is what a template that is there under exactly its name comes to. -/
def Anchored (l : Loader) : Prop :=
  ∀ e ∈ l.cache, ∃ raw, l.IsDirect e.1.1 raw ∧ e.2 = (l.prepare e.1.1 raw e.1.2).1

theorem IsDirect.raw?_target {l : Loader} {name raw target : String} (h : l.IsDirect name raw)
    (htarget : target ∈ targets (Sheet.plainForm raw)) (hne : target ≠ name) :
    ∃ text, l.under? target = some text ∧ l.raw? target = some text := by
  obtain ⟨text, htext⟩ := Option.isSome_iff_exists.1 (h.2 target htarget hne)
  exact ⟨text, htext, raw?_of_under? htext⟩

/-- A text that stays in the cache when a template changes is left what it was. -/
theorem IsDirect.of_change {l l' : Loader} {name raw changed : String} {resolves : Bool}
    (h : l.IsDirect name raw) (hbindings : l'.bindings = l.bindings)
    (hfunctions : l'.functions = l.functions)
    (hunder : ∀ other, other ≠ changed → l'.under? other = l.under? other)
    (hname : name ≠ changed)
    (himports : changed ∉ (l.prepare name raw resolves).1.imports) :
    l'.IsDirect name raw ∧ l'.prepare name raw resolves = l.prepare name raw resolves := by
  -- An imported template is recorded, so it is not the one that changed.
  have hkept : ∀ target ∈ targets (Sheet.plainForm raw), target ≠ name →
      ∃ text, l'.under? target = some text ∧ l.raw? target = some text := by
    intro target htarget hne
    obtain ⟨text, htext, hraw⟩ := h.raw?_target htarget hne
    have hother : target ≠ changed := by
      rintro rfl
      exact himports (mem_imports htarget hne hraw)
    exact ⟨text, (hunder target hother).trans htext, hraw⟩
  refine ⟨⟨(hunder name hname).trans h.1, ?_⟩, ?_⟩
  · intro target htarget hne
    obtain ⟨text, htext, _⟩ := hkept target htarget hne
    rw [htext]
    rfl
  · refine prepare_congr ?_ (fun _ => ⟨hbindings, hfunctions⟩)
    intro target htarget hne
    obtain ⟨text, htext, hraw⟩ := hkept target htarget hne
    rw [raw?_of_under? htext, hraw]

theorem not_overlooks_of_anchored {l : Loader} (h : l.Anchored) (op : Op) : ¬ l.Overlooks op := by
  rintro ⟨name, htemplate, e, he, hname, himports, hne⟩
  obtain ⟨raw, hdirect, hx⟩ := h e he
  rcases step_of_template? (l := l) htemplate with heq | ⟨_, hbindings, hfunctions, hunder⟩
  · exact hne (by rw [heq])
  · rw [hx] at himports
    obtain ⟨hdirect', hprepare⟩ :=
      hdirect.of_change hbindings hfunctions hunder hname himports
    rw [fresh_of_raw? (raw?_of_under? hdirect'.1), fresh_of_raw? (raw?_of_under? hdirect.1),
      hprepare] at hne
    exact hne rfl

/-- A load finds its template and the imported ones under the very names, if it finds it at all. -/
def LoadsDirectly (l : Loader) (op : Op) : Prop :=
  ∀ name, op.loaded? = some name → ∀ raw, l.raw? name = some raw → l.IsDirect name raw

theorem anchored_step {l : Loader} (h : l.Anchored) {op : Op} (hop : l.LoadsDirectly op) :
    (l.step op).Anchored := by
  intro e he
  cases htemplate : op.template? with
  | some name =>
    rcases step_of_template? (l := l) htemplate with heq | ⟨hcache, hbindings, hfunctions, hunder⟩
    · rw [heq] at he ⊢
      exact h e he
    · rw [hcache] at he
      obtain ⟨he, hname, himports⟩ := mem_invalidate_iff.1 he
      obtain ⟨raw, hdirect, hx⟩ := h e he
      rw [hx] at himports
      obtain ⟨hdirect', hprepare⟩ :=
        hdirect.of_change hbindings hfunctions hunder hname himports
      exact ⟨raw, hdirect', by rw [hprepare, hx]⟩
  | none =>
    cases hload : op.loaded? with
    | some name =>
      obtain ⟨resolves, cache, counters, heq, hcache⟩ := step_of_loaded? (l := l) hload
      rw [heq] at he ⊢
      rcases hcache with rfl | ⟨raw, hraw, rfl⟩
      · exact h e he
      · rcases Cache.mem_insert_iff.1 he with rfl | ⟨he, _⟩
        · exact ⟨raw, hop name hload raw hraw, rfl⟩
        · exact h e he
    | none =>
      rcases step_of_no_template (l := l) htemplate hload with
        hcache | ⟨hstore, hregistered, hfunctions, hcache⟩
      · rw [hcache] at he
        cases he
      · rw [hcache] at he
        obtain ⟨he, hresolves⟩ := mem_dropResolved_iff.1 he
        obtain ⟨raw, hdirect, hx⟩ := h e he
        have hunder : (l.step op).under? = l.under? := by
          funext name
          unfold under?
          rw [hstore, hregistered]
        have hprepare : (l.step op).prepare e.1.1 raw false = l.prepare e.1.1 raw false :=
          prepare_congr (fun _ _ _ => by rw [raw?_congr hstore hregistered]) (fun hc => by cases hc)
        exact ⟨raw, by rwa [IsDirect, hunder], by rw [hx, hresolves, hprepare]⟩

/-! ## Along a run -/

/-- Something holds of every change or load of a run in the state that it meets. -/
def Throughout (P : Loader → Op → Prop) (l : Loader) (ops : List Op) : Prop :=
  ∀ before op after, ops = before ++ op :: after → P (l.run before) op

theorem throughout_cons {P : Loader → Op → Prop} {l : Loader} {op : Op} {rest : List Op} :
    Throughout P l (op :: rest) ↔ P l op ∧ Throughout P (l.step op) rest := by
  constructor
  · intro h
    refine ⟨h [] op rest rfl, fun before other after heq => ?_⟩
    exact h (op :: before) other after (by rw [heq, List.cons_append])
  · rintro ⟨hop, hrest⟩ before other after heq
    cases before with
    | nil =>
      cases heq
      exact hop
    | cons first before =>
      cases heq
      exact hrest before other after rfl

/-- Every load gives what it gives past the cache, at every point of a run. -/
def AlwaysCurrent (l : Loader) (ops : List Op) : Prop :=
  ∀ before after, ops = before ++ after → (l.run before).Current

theorem alwaysCurrent_cons {l : Loader} {op : Op} {rest : List Op} :
    AlwaysCurrent l (op :: rest) ↔ l.Current ∧ AlwaysCurrent (l.step op) rest := by
  constructor
  · intro h
    refine ⟨h [] _ rfl, fun before after heq => ?_⟩
    exact h (op :: before) after (by rw [heq, List.cons_append])
  · rintro ⟨hl, hrest⟩ before after heq
    cases before with
    | nil => exact hl
    | cons first before =>
      cases heq
      exact hrest before after rfl

theorem alwaysCurrent_iff {l : Loader} (hdistinct : Cache.Distinct l.cache) (h : l.Current)
    (ops : List Op) :
    AlwaysCurrent l ops ↔ Throughout (fun l op => ¬ l.Overlooks op) l ops := by
  induction ops generalizing l with
  | nil =>
    constructor
    · intro _ before op after heq
      cases before <;> cases heq
    · intro _ before after heq
      obtain ⟨rfl, _⟩ := List.append_eq_nil_iff.1 heq.symm
      exact h
  | cons op rest ih =>
    rw [alwaysCurrent_cons, throughout_cons]
    have hstep := current_step_iff hdistinct h op
    constructor
    · rintro ⟨_, hrest⟩
      have hcurrent : (l.step op).Current := hrest [] rest rfl
      exact ⟨hstep.1 hcurrent, (ih (distinct_step hdistinct op) hcurrent).1 hrest⟩
    · rintro ⟨hop, hrest⟩
      exact ⟨h, (ih (distinct_step hdistinct op) (hstep.2 hop)).2 hrest⟩

theorem not_overlooks_of_loadsDirectly {l : Loader} (h : l.Anchored) {ops : List Op}
    (hops : Throughout LoadsDirectly l ops) :
    Throughout (fun l op => ¬ l.Overlooks op) l ops := by
  induction ops generalizing l with
  | nil =>
    intro before op after heq
    cases before <;> cases heq
  | cons op rest ih =>
    obtain ⟨hop, hrest⟩ := throughout_cons.1 hops
    exact throughout_cons.2 ⟨not_overlooks_of_anchored h op, ih (anchored_step h hop) hrest⟩

/-- **Loads are right exactly if no change of a template is overlooked.** From the start of a loader
    on, every load at every point of a run gives what it would give with an empty cache if and only
    if no template of the run is changed while a text stays in the cache that the change alters. No
    change is overlooked if each load of the run finds its template, and every one that it imports,
    under the very names that are given, without falling back and without leaving a directive. -/
theorem loads_current_iff (store : Store) (functions : Functions) (ops : List Op) :
    (AlwaysCurrent (start store functions) ops ↔
      Throughout (fun l op => ¬ l.Overlooks op) (start store functions) ops) ∧
    (Throughout LoadsDirectly (start store functions) ops →
      AlwaysCurrent (start store functions) ops) := by
  have hdistinct : Cache.Distinct (start store functions).cache := List.nodup_nil
  have hcurrent : (start store functions).Current :=
    (current_iff hdistinct).2 (fun e he => by cases he)
  have hanchored : (start store functions).Anchored := fun e he => by cases he
  have hiff := alwaysCurrent_iff hdistinct hcurrent ops
  exact ⟨hiff, fun hdirect => hiff.2 (not_overlooks_of_loadsDirectly hanchored hdirect)⟩

/-- A text that imports `base` as `base.css` keeps the old text of `base`. -/
theorem load_stale :
    ¬ AlwaysCurrent (start [] Functions.builtin)
      [.register "base" ".base { x: 1; }", .register "main" "@import base.css;",
        .tryLoad "main" false, .register "base" ".base { x: 2; }"] := by
  intro h
  have hload := congrArg Except.toOption (h _ [] (List.append_nil _).symm "main" false)
  revert hload
  decide +kernel

end Loader

end Theming.Template
