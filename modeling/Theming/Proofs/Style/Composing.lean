import Theming.Proofs.Style.Caching

set_option autoImplicit false

/-! # Overlays rule by rule

All rules that apply are gathered in one tree, values are put into it at once, and it is written at
once. Still each rule gets the text that it would get alone (`Overlay.appendix_eq_join`): no rule
defines a local name that another one reads, since its nodes are no declarations at the top
(`Rule.isLocal_of_mem_nodes`), and both layouts write what stands at the top item by item
(`Sheet.serialize_root_append`).

So the output for a template is the compiled template, followed by the outputs of its rules one by
one, and rules that are not shown in a context do not matter there. This is the main result,
`Overlay.generate_composes`. -/

namespace Theming.Style

open Sheet (Node)

/-! ## Trees without local names -/

section

variable {context tokens : TokenSet} {functions : Functions}

theorem evaluateTrees_append (scope : Scope) (a b : List Node) :
    evaluateTrees scope functions (a ++ b) =
      evaluateTrees scope functions a ++ evaluateTrees scope functions b := by
  induction a with
  | nil => rfl
  | cons n rest ih => rw [List.cons_append, evaluateTrees, evaluateTrees, ih, List.cons_append]

/-- Without local names, every node is evaluated in the same scope, and none is taken out. -/
theorem substitute_root {nodes : List Node} (h : ∀ n ∈ nodes, isLocal n = false) :
    (substitute context tokens functions (.root nodes)).1 =
      .root (evaluateTrees (scope context [] tokens) functions nodes) := by
  have hlocals : localsOf context tokens functions (.root nodes) = [] := by
    have hnone : nodes.filter isLocal = [] :=
      List.filter_eq_nil_iff.2 (fun n hn => Bool.eq_false_iff.1 (h n hn))
    unfold localsOf Node.root
    rw [Sheet.Node.children_mk, hnone]
    rfl
  have hrest : withoutLocals (.root nodes) = .root nodes := by
    have hall : nodes.filter (fun n => !isLocal n) = nodes :=
      List.filter_eq_self.2 (fun n hn => by rw [h n hn]; rfl)
    unfold withoutLocals Node.root
    rw [Sheet.Node.children_mk, hall]
    rfl
  unfold substitute
  dsimp only
  rw [hlocals, hrest]
  rfl

end

/-- What a compiler writes for nodes at the top of a tree, with values put in. -/
def Compiler.written (c : Compiler) (context : TokenSet) (nodes : List Node) : String :=
  Sheet.serialize c.settings.layout
    (Style.substitute context c.tokens c.functions (.root nodes)).1

theorem Compiler.written_nil (c : Compiler) (context : TokenSet) : c.written context [] = "" := by
  rw [written, substitute_root (fun n hn => by cases hn)]
  exact Sheet.serialize_root_nil _

theorem Compiler.written_append (c : Compiler) (context : TokenSet) {a b : List Node}
    (ha : ∀ n ∈ a, isLocal n = false) (hb : ∀ n ∈ b, isLocal n = false) :
    c.written context (a ++ b) = c.written context a ++ c.written context b := by
  have hboth : ∀ n ∈ a ++ b, isLocal n = false :=
    fun n hn => (List.mem_append.1 hn).elim (ha n) (hb n)
  rw [written, written, written, substitute_root ha, substitute_root hb, substitute_root hboth,
    evaluateTrees_append, Sheet.serialize_root_append]

/-! ## Rules -/

namespace Rule

/-- Whether a rule is written in a context: it applies, and it needs no media query that is turned
    off. -/
def isShown (mediaQueries : Bool) (context : TokenSet) (r : Rule) : Bool :=
  r.applies context && (r.mediaQuery.isNone || mediaQueries)

/-- The nodes of a rule are blocks, so that none of them defines a local name. -/
theorem isLocal_of_mem_nodes {mediaQueries : Bool} {r : Rule} {n : Node}
    (h : n ∈ r.nodes mediaQueries) : isLocal n = false := by
  unfold nodes at h
  split at h
  · rw [List.mem_singleton.1 h]
    rfl
  · split at h
    · rw [List.mem_singleton.1 h]
      rfl
    · cases h

/-- A rule that applies and is not shown needs a media query, and these are turned off. -/
theorem nodes_eq_nil {mediaQueries : Bool} {context : TokenSet} {r : Rule}
    (happlies : r.applies context = true) (hshown : r.isShown mediaQueries context = false) :
    r.nodes mediaQueries = [] := by
  rw [isShown, happlies, Bool.true_and, Bool.or_eq_false_iff] at hshown
  obtain ⟨hquery, hoff⟩ := hshown
  unfold nodes
  split
  · next hnone =>
    rw [hnone] at hquery
    cases hquery
  · rw [if_neg (by rw [hoff]; exact Bool.false_ne_true)]

theorem flatMap_nodes_filter (mediaQueries : Bool) (context : TokenSet) (rules : List Rule) :
    (rules.filter (applies context)).flatMap (nodes mediaQueries) =
      (rules.filter (isShown mediaQueries context)).flatMap (nodes mediaQueries) := by
  induction rules with
  | nil => rfl
  | cons r rest ih =>
    rw [List.filter_cons, List.filter_cons]
    cases happlies : r.applies context with
    | false =>
      have hshown : r.isShown mediaQueries context = false := by rw [isShown, happlies]; rfl
      rw [hshown]
      exact ih
    | true =>
      cases hshown : r.isShown mediaQueries context with
      | true => rw [if_pos rfl, if_pos rfl, List.flatMap_cons, List.flatMap_cons, ih]
      | false =>
        rw [if_pos rfl, if_neg Bool.false_ne_true, List.flatMap_cons,
          nodes_eq_nil happlies hshown, ih]
        rfl

/-- What is written for several rules is what is written for each of them. -/
theorem written_flatMap (c : Compiler) (context : TokenSet) (mediaQueries : Bool)
    (rules : List Rule) :
    c.written context (rules.flatMap (nodes mediaQueries)) =
      String.join (rules.map (fun r => c.written context (r.nodes mediaQueries))) := by
  induction rules with
  | nil => exact c.written_nil context
  | cons r rest ih =>
    have hrest : ∀ n ∈ rest.flatMap (nodes mediaQueries), isLocal n = false := by
      intro n hn
      obtain ⟨r', -, hn⟩ := List.mem_flatMap.1 hn
      exact isLocal_of_mem_nodes hn
    rw [List.flatMap_cons, c.written_append context (fun _ => isLocal_of_mem_nodes) hrest, ih,
      List.map_cons, String.join_cons]

end Rule

namespace Overlay

/-! ## One rule after the other -/

/-- The rules that are written in a context, in order. -/
def shown (o : Overlay) (context : TokenSet) : List Rule :=
  o.rules.filter (Rule.isShown o.settings.mediaQueries context)

/-- An overlay with the same settings that holds a single rule. -/
def alone (o : Overlay) (rule : Rule) : Overlay := (start o.settings).withRules [rule]

/-- **What is written behind a template is put together rule by rule.** -/
theorem appendix_eq_join (o : Overlay) (c : Compiler) (r : Request) :
    o.appendix c r = String.join ((o.shown r.context).map
      (fun rule => c.written r.context (rule.nodes o.settings.mediaQueries))) := by
  rw [← Rule.written_flatMap, shown, ← Rule.flatMap_nodes_filter]
  rfl

/-- A rule that is shown is written alone as it is among others. -/
theorem appendix_alone {o : Overlay} (c : Compiler) {r : Request} {rule : Rule}
    (h : rule ∈ o.shown r.context) :
    (o.alone rule).appendix c r = c.written r.context (rule.nodes o.settings.mediaQueries) := by
  have hshown : (o.alone rule).shown r.context = [rule] := by
    have hrule := (List.mem_filter.1 h).2
    show [rule].filter (Rule.isShown o.settings.mediaQueries r.context) = [rule]
    rw [List.filter_cons, if_pos hrule, List.filter_nil]
  rw [appendix_eq_join, hshown, List.map_singleton, String.join_cons, String.join_nil,
    String.append_empty]
  rfl

end Overlay

/-! ## Compilers that have been in use -/

namespace Compiler.Trace

/-- The empty template compiles to nothing. -/
theorem compile_empty {t : Trace} (h : t.Sound) (context : TokenSet) :
    (t.compiler.compile "" context).1 = "" := by
  have hsource : (t.source ⟨"", context⟩).template = "" := by
    unfold source
    split
    · exact (Request.alike_iff.1 (Request.alike_leader t.recent ⟨"", context⟩)).1
    · rfl
  have hparse : Sheet.parse "" = .root [] := by decide +kernel
  rw [compile_eq h ⟨"", context⟩, direct_eq, hsource, hparse]
  exact t.compiler.written_nil _

/-- Without a cache of its own, an overlay writes its rules behind the compiled template. -/
theorem generate_eq {t : Trace} (h : t.Sound) {o : Overlay} (hoff : o.settings.caches = false)
    (r : Request) :
    (o.generate t.compiler r.template r.context).1 =
      (t.compiler.compile r.template r.context).1 ++ o.appendix t.compiler r := by
  obtain ⟨hsettings, hfunctions, htokens, -⟩ := compile_frame h.trees r
  have hmiss : Cache.findWhen? o.settings.caches
      ⟨t.compiler.outputKey r.template r.context, o.version⟩ o.outputs = none := by
    rw [hoff]
    rfl
  obtain ⟨_, _, heq⟩ := Overlay.Trace.generate_miss ⟨hsettings, hfunctions, htokens⟩ hmiss
  rw [heq]

end Compiler.Trace

namespace Overlay

/-! ## Rules that are not shown -/

theorem filter_place {p : Rule → Bool} {rule : Rule} (hrule : p rule = false) {rules : List Rule}
    (h : ∀ r ∈ rules.filter p, r.selector ≠ rule.selector) :
    (place rule rules).filter p = rules.filter p := by
  induction rules with
  | nil => rw [place, List.filter_cons, hrule]; rfl
  | cons r rest ih =>
    rw [place]
    split
    · next hsame =>
      -- The rule that is replaced is not kept either.
      have hr : p r = false := by
        rw [Bool.eq_false_iff]
        intro hr
        exact h r (List.mem_filter.2 ⟨List.mem_cons_self, hr⟩) hsame
      rw [List.filter_cons, List.filter_cons, hrule, hr]
      rfl
    · have hrest : ∀ r' ∈ rest.filter p, r'.selector ≠ rule.selector := by
        intro r' hr'
        obtain ⟨hmem, hp⟩ := List.mem_filter.1 hr'
        exact h r' (List.mem_filter.2 ⟨List.mem_cons_of_mem r hmem, hp⟩)
      rw [List.filter_cons, List.filter_cons, ih hrest]

theorem shown_add {o o' : Overlay} {rule : Rule} (hadd : o.add rule = some o') {context : TokenSet}
    (hrule : rule.isShown o.settings.mediaQueries context = false)
    (h : ∀ r ∈ o.shown context, r.selector ≠ Text.trimmed rule.selector) :
    o'.settings = o.settings ∧ o'.shown context = o.shown context := by
  obtain ⟨-, rfl⟩ := add_eq_some_iff.1 hadd
  have htrimmed : rule.trimmed.isShown o.settings.mediaQueries context = false := hrule
  exact ⟨rfl, filter_place htrimmed h⟩

theorem shown_remove {o o' : Overlay} {selector : String} (hremove : o.remove selector = some o')
    {context : TokenSet} (h : ∀ r ∈ o.shown context, r.selector ≠ Text.trimmed selector) :
    o'.settings = o.settings ∧ o'.shown context = o.shown context := by
  obtain ⟨-, rfl⟩ := remove_eq_some_iff.1 hremove
  refine ⟨rfl, ?_⟩
  show (o.rules.filter _).filter (Rule.isShown o.settings.mediaQueries context) = o.shown context
  rw [List.filter_filter]
  apply List.filter_congr
  intro r hr
  cases hshown : r.isShown o.settings.mediaQueries context with
  | false => rfl
  | true => simpa using h r (List.mem_filter.2 ⟨hr, hshown⟩)

/-- An output depends on the rules that are shown only. -/
theorem generate_congr {t : Compiler.Trace} (ht : t.Sound) {o o' : Overlay}
    (hoff : o.settings.caches = false) {r : Request}
    (h : o'.settings = o.settings ∧ o'.shown r.context = o.shown r.context) :
    (o'.generate t.compiler r.template r.context).1 =
      (o.generate t.compiler r.template r.context).1 := by
  obtain ⟨hsettings, hshown⟩ := h
  have hoff' : o'.settings.caches = false := by rw [hsettings, hoff]
  rw [t.generate_eq ht hoff', t.generate_eq ht hoff, appendix_eq_join, appendix_eq_join, hsettings,
    hshown]

/-- **Generating is compositional.** Over a compiler in any state, an overlay without a cache writes
    behind the compiled template what each rule that is shown gives on its own with the empty
    template. To add, replace or remove rules that are not shown changes nothing. -/
theorem generate_composes (settings : CompilerSettings) (functions : Functions)
    (ops : List Compiler.Op) {o : Overlay} (hoff : o.settings.caches = false) (template : String)
    (context : TokenSet) :
    let c := ((Compiler.Trace.start settings functions).run ops).compiler
    (o.generate c template context).1 =
        (c.compile template context).1 ++
          String.join ((o.shown context).map
            (fun rule => ((o.alone rule).generate c "" context).1)) ∧
      (∀ rule o', o.add rule = some o' →
        rule.isShown o.settings.mediaQueries context = false →
        (∀ r ∈ o.shown context, r.selector ≠ Text.trimmed rule.selector) →
        (o'.generate c template context).1 = (o.generate c template context).1) ∧
      ∀ selector o', o.remove selector = some o' →
        (∀ r ∈ o.shown context, r.selector ≠ Text.trimmed selector) →
        (o'.generate c template context).1 = (o.generate c template context).1 := by
  have ht := Compiler.Trace.sound_run (Compiler.Trace.sound_start settings functions) ops
  generalize (Compiler.Trace.start settings functions).run ops = t at ht
  refine ⟨?rules, ?added, ?removed⟩
  case rules =>
    rw [t.generate_eq ht hoff ⟨template, context⟩, appendix_eq_join]
    congr 2
    apply List.map_congr_left
    intro rule hrule
    have halone : (o.alone rule).settings.caches = false := hoff
    rw [t.generate_eq ht halone ⟨"", context⟩, t.compile_empty ht, String.empty_append,
      appendix_alone (r := ⟨"", context⟩) t.compiler hrule]
  case added =>
    intro rule o' hadd hrule hselector
    exact generate_congr (r := ⟨template, context⟩) ht hoff (shown_add hadd hrule hselector)
  case removed =>
    intro selector o' hremove hselector
    exact generate_congr (r := ⟨template, context⟩) ht hoff (shown_remove hremove hselector)

/-- Rules for the night, for the day and for narrow screens. -/
def dayAndNight : Overlay :=
  (start ⟨true, false⟩).withRules
    [⟨".panel", [("color", "$ink")], [⟨.equals, "mode", .str "night"⟩], none⟩,
      ⟨".side", [("color", "$ink")], [⟨.equals, "mode", .str "day"⟩], none⟩,
      ⟨".narrow", [("width", "100%")], [], some "(max-width: 600px)"⟩]

/-- At night, two rules are written behind a template with a comment; the rule for the day can be
    changed and removed. -/
theorem generate_composes_night :
    let c := ((Compiler.Trace.start ⟨true, false, false⟩ Functions.builtin).run
      [.tokens [("ink", .str "#fff")]]).compiler
    let night : TokenSet := [("mode", .str "night")]
    (dayAndNight.generate c "/* base */ a { color: $ink }" night).1 =
        (c.compile "/* base */ a { color: $ink }" night).1 ++
          String.join ((dayAndNight.shown night).map
            (fun rule => ((dayAndNight.alone rule).generate c "" night).1)) ∧
      (∃ o, dayAndNight.add ⟨" .side ", [], [⟨.equals, "mode", .str "dawn"⟩], none⟩ = some o ∧
        (o.generate c "/* base */ a { color: $ink }" night).1 =
          (dayAndNight.generate c "/* base */ a { color: $ink }" night).1) ∧
      ∃ o, dayAndNight.remove ".side" = some o ∧
        (o.generate c "/* base */ a { color: $ink }" night).1 =
          (dayAndNight.generate c "/* base */ a { color: $ink }" night).1 := by
  obtain ⟨hrules, hadded, hremoved⟩ := generate_composes ⟨true, false, false⟩ Functions.builtin
    [.tokens [("ink", .str "#fff")]] (o := dayAndNight) rfl "/* base */ a { color: $ink }"
    [("mode", .str "night")]
  exact ⟨hrules,
    ⟨_, add_eq_some_iff.2 ⟨by decide +kernel, rfl⟩,
      hadded _ _ (add_eq_some_iff.2 ⟨by decide +kernel, rfl⟩) (by decide +kernel)
        (by decide +kernel)⟩,
    ⟨_, remove_eq_some_iff.2 ⟨by decide +kernel, rfl⟩,
      hremoved _ _ (remove_eq_some_iff.2 ⟨by decide +kernel, rfl⟩) (by decide +kernel)⟩⟩

end Overlay

end Theming.Style
