import Theming.Proofs.Sheet.Moving
import Theming.Proofs.Style.Requests
import Theming.Proofs.Token.Tidy

set_option autoImplicit false

/-! # What a template reads

Evaluation looks up the names that a text refers to and no others (`evaluate_congr`). A template
looks them up among its own definitions first, so from the tokens it reads the names that no
definition in force covers: `readNames` collects them in the order of substitution, where each
definition at the top is evaluated before it counts and definitions further down never count. Tokens
that agree on these names give the same output (`substitute_congr`).

The names that are reported as used leave out every name that the template defines somewhere. What
it reads beyond them are the names that it hides: those with a definition that is not in force where
they are read, as it stands under a rule or further down (`compile_eq_of_usedNames`). A template
that hides a name depends on tokens that are not reported (`usedNames_miss`). -/

namespace Theming

/-! ## Evaluation -/

/-- **Evaluation depends on the names that the text refers to.** -/
theorem evaluate_congr {functions : Functions} {mode : Mode} {before after : Scope} {text : String}
    (h : ∀ name ∈ Segment.referencedNames functions.contains text, before name = after name) :
    evaluate text before functions mode = evaluate text after functions mode := by
  rw [evaluate, evaluate, Segment.evalList_congr _ h]

/-- A name under which something is stored is found. -/
theorem TokenSet.lookup?_isSome_of_mem_names {set : TokenSet} {name : String}
    (h : name ∈ Table.names set) : (set.lookup? name).isSome := by
  obtain ⟨v, hv⟩ := Option.isSome_iff_exists.1 (Table.find?_isSome_iff.2 h)
  have hget : get? name set = some v := by rw [get?, hv]
  rw [lookup?, Option.isSome_map, spellings, List.cons_append, List.findSome?_cons, hget]
  rfl

namespace Style

open Sheet (Node Kind)

variable {functions : Functions} {tokens tokens' locals : TokenSet}

/-! ## Names that are read -/

/-- The names that a node refers to. -/
def namesIn (functions : Functions) (n : Node) : List String :=
  ((evaluatedText? n).map (Segment.referencedNames functions.contains)).getD []

/-- The names that definitions refer to when neither `defined` nor the definitions before them have
    them. -/
def readBy (functions : Functions) : List String → List Node → List String
  | _, [] => []
  | defined, n :: rest =>
    (namesIn functions n).filter (fun name => !defined.contains name) ++
      readBy functions (localName (n.prop Sheet.propertyKey) :: defined) rest

/-- The names that a tree defines at its top. -/
def localNames (tree : Node) : List String :=
  (tree.children.filter isLocal).map (fun n => localName (n.prop Sheet.propertyKey))

/-- The names that a tree reads from the tokens. -/
def readNames (functions : Functions) (tree : Node) : List String :=
  readBy functions [] (tree.children.filter isLocal) ++
    ((withoutLocals tree).preorder.flatMap (namesIn functions)).filter
      (fun name => !(localNames tree).contains name)

/-- The names that a tree reads from the tokens although some node of it defines them. -/
def hiddenNames (functions : Functions) (tree : Node) : List String :=
  (readNames functions tree).filter
    (fun name => (tree.preorder.map definedName?).contains (some name))

/-- Whether two sets yield the same for some names. -/
def Agree (tokens tokens' : TokenSet) (names : List String) : Prop :=
  ∀ name ∈ names, tokens.lookup? name = tokens'.lookup? name

instance (tokens tokens' : TokenSet) (names : List String) :
    Decidable (Agree tokens tokens' names) :=
  inferInstanceAs (Decidable (∀ name ∈ names, tokens.lookup? name = tokens'.lookup? name))

/-! ## The same look-ups -/

/-- A name is looked up alike if it is defined or the tokens agree on it. -/
theorem scope_congr {name : String} {defined : List String}
    (hlocals : ∀ name ∈ defined, name ∈ Table.names locals)
    (h : name ∉ defined → tokens.lookup? name = tokens'.lookup? name) (context : TokenSet) :
    scope context locals tokens name = scope context locals tokens' name := by
  rw [scope, scope, Scope.layered, Scope.layered]
  simp only [List.findSome?_cons]
  by_cases hname : name ∈ defined
  · obtain ⟨v, hv⟩ := Option.isSome_iff_exists.1
      (TokenSet.lookup?_isSome_of_mem_names (hlocals name hname))
    rw [hv]
  · rw [h hname]

/-- Definitions get the same values. -/
theorem foldl_define_congr (context : TokenSet) {nodes : List Node}
    (hlocal : ∀ n ∈ nodes, isLocal n = true) {defined : List String}
    (hlocals : ∀ name ∈ defined, name ∈ Table.names locals)
    (h : Agree tokens tokens' (readBy functions defined nodes)) :
    nodes.foldl (define context tokens functions) locals =
        nodes.foldl (define context tokens' functions) locals ∧
      ∀ name ∈ defined ++ nodes.map (fun n => localName (n.prop Sheet.propertyKey)),
        name ∈ Table.names (nodes.foldl (define context tokens functions) locals) := by
  induction nodes generalizing locals defined with
  | nil => exact ⟨rfl, by simpa using hlocals⟩
  | cons n rest ih =>
    have hnames : namesIn functions n =
        Segment.referencedNames functions.contains (n.prop Sheet.valueKey) := by
      have hkind : n.kind = .declaration := by
        have hn := hlocal n List.mem_cons_self
        rw [isLocal, Bool.and_eq_true] at hn
        exact of_decide_eq_true hn.1
      rw [namesIn, evaluatedText?, hkind]
      rfl
    have hsame : define context tokens functions locals n =
        define context tokens' functions locals n := by
      have hscope : ∀ name ∈ Segment.referencedNames functions.contains (n.prop Sheet.valueKey),
          scope context locals tokens name = scope context locals tokens' name := by
        intro name hname
        refine scope_congr hlocals (fun hnew => h name (List.mem_append_left _ ?_)) context
        refine List.mem_filter.2 ⟨by rw [hnames]; exact hname, ?_⟩
        simpa using hnew
      rw [define, define, evaluate_congr hscope]
    have hnow : ∀ name ∈ localName (n.prop Sheet.propertyKey) :: defined,
        name ∈ Table.names (define context tokens functions locals n) := by
      intro name hname
      rw [define, Table.mem_names_insert_iff]
      rcases List.mem_cons.1 hname with rfl | hname
      · exact Or.inl rfl
      · exact Or.inr (hlocals name hname)
    obtain ⟨hfold, hmem⟩ := ih (fun m hm => hlocal m (List.mem_cons_of_mem n hm)) hnow
      (fun name hname => h name (List.mem_append_right _ hname))
    rw [List.foldl_cons, List.foldl_cons, ← hsame]
    refine ⟨hfold, fun name hname => hmem name ?_⟩
    rw [List.map_cons, List.mem_append, List.mem_cons] at hname
    rw [List.cons_append, List.mem_cons, List.mem_append, or_left_comm]
    exact hname

theorem outcome?_congr {before after : Scope} {text : String}
    (h : ∀ name ∈ Segment.referencedNames functions.contains text, before name = after name) :
    outcome? before functions text = outcome? after functions text := by
  rw [outcome?, outcome?, evaluate_congr h]

mutual

/-- A tree depends on the names in it only. -/
theorem evaluateTree_congr {before after : Scope} : ∀ n : Node,
    (∀ m ∈ n.preorder, ∀ name ∈ namesIn functions m, before name = after name) →
    evaluateTree before functions n = evaluateTree after functions n
  | .mk kind properties children, h => by
    have hproperties : evaluateProperties before functions kind properties =
        evaluateProperties after functions kind properties := by
      have hself := h (.mk kind properties children) List.mem_cons_self
      rw [namesIn, evaluatedText?, Node.kind_mk] at hself
      rw [evaluateProperties, evaluateProperties]
      cases hkey : evaluatedKey? kind with
      | none => rfl
      | some key =>
        rw [hkey] at hself
        have hsame : outcome? before functions ((Table.find? key properties).getD "") =
            outcome? after functions ((Table.find? key properties).getD "") := outcome?_congr hself
        dsimp only
        rw [hsame]
    rw [evaluateTree, evaluateTree, hproperties,
      evaluateTrees_congr children (fun m hm => h m (List.mem_cons_of_mem _ hm))]
termination_by structural n => n

theorem evaluateTrees_congr {before after : Scope} : ∀ nodes : List Node,
    (∀ m ∈ Node.preorderAll nodes, ∀ name ∈ namesIn functions m, before name = after name) →
    evaluateTrees before functions nodes = evaluateTrees after functions nodes
  | [], _ => rfl
  | n :: rest, h => by
    rw [evaluateTrees, evaluateTrees,
      evaluateTree_congr n (fun m hm => h m (List.mem_append_left _ hm)),
      evaluateTrees_congr rest (fun m hm => h m (List.mem_append_right _ hm))]
termination_by structural nodes => nodes

end

/-- **Substitution depends on the names that a tree reads.** -/
theorem substitute_congr (context : TokenSet) {tree : Node}
    (h : Agree tokens tokens' (readNames functions tree)) :
    (substitute context tokens functions tree).1 =
      (substitute context tokens' functions tree).1 := by
  have hnone : ∀ name ∈ ([] : List String), name ∈ Table.names ([] : TokenSet) :=
    fun name hname => by cases hname
  obtain ⟨hlocals, hnames⟩ := foldl_define_congr context (fun n hn => (List.mem_filter.1 hn).2)
    hnone (fun name hname => h name (List.mem_append_left _ hname))
  have hsame : localsOf context tokens functions tree = localsOf context tokens' functions tree :=
    hlocals
  have hdefined : ∀ name ∈ localNames tree,
      name ∈ Table.names (localsOf context tokens functions tree) := hnames
  rw [substitute, substitute, ← hsame]
  refine evaluateTree_congr _ fun m hm name hname => ?_
  refine scope_congr hdefined (fun hnew => ?_) context
  refine h name (List.mem_append_right _ (List.mem_filter.2 ⟨?_, by simpa using hnew⟩))
  exact List.mem_flatMap.2 ⟨m, hm, hname⟩

/-! ## Names that are reported as used -/

/-- A name is used if some text refers to it and no node defines it. -/
theorem mem_usedNames_iff {tree : Node} {name : String} :
    name ∈ usedNames functions tree ↔
      (∃ n ∈ tree.preorder, name ∈ namesIn functions n) ∧
        ∀ n ∈ tree.preorder, definedName? n ≠ some name := by
  have hused : (∃ text ∈ tree.preorder.filterMap evaluatedText?,
      name ∈ Segment.referencedNames functions.contains text) ↔
      ∃ n ∈ tree.preorder, name ∈ namesIn functions n := by
    constructor
    · rintro ⟨text, htext, hname⟩
      obtain ⟨n, hn, heq⟩ := List.mem_filterMap.1 htext
      exact ⟨n, hn, by rw [namesIn, heq]; exact hname⟩
    · rintro ⟨n, hn, hname⟩
      rw [namesIn] at hname
      cases htext : evaluatedText? n with
      | none =>
        rw [htext] at hname
        cases hname
      | some text =>
        rw [htext] at hname
        exact ⟨text, List.mem_filterMap.2 ⟨n, hn, htext⟩, hname⟩
  rw [usedNames, Table.mem_names_ofPairs_iff, List.map_map, ← hused]
  simp

theorem mem_readBy {name : String} {defined : List String} {nodes : List Node}
    (h : name ∈ readBy functions defined nodes) : ∃ n ∈ nodes, name ∈ namesIn functions n := by
  induction nodes generalizing defined with
  | nil => cases h
  | cons n rest ih =>
    rcases List.mem_append.1 h with h | h
    · exact ⟨n, List.mem_cons_self, (List.mem_filter.1 h).1⟩
    · obtain ⟨m, hm, hname⟩ := ih h
      exact ⟨m, List.mem_cons_of_mem n hm, hname⟩

/-- Names that are read stand in the tree. -/
theorem exists_of_mem_readNames {tree : Node} {name : String}
    (h : name ∈ readNames functions tree) : ∃ n ∈ tree.preorder, name ∈ namesIn functions n := by
  have hbelow : ∀ child ∈ tree.children, ∀ m ∈ child.preorder, m ∈ tree.preorder :=
    fun child hchild m hm => Node.mem_preorder.2 (Or.inr ⟨child, hchild, hm⟩)
  rcases List.mem_append.1 h with h | h
  · obtain ⟨n, hn, hname⟩ := mem_readBy h
    have hchild := (List.mem_filter.1 hn).1
    exact ⟨n, hbelow n hchild n (Node.self_mem_preorder n), hname⟩
  · obtain ⟨m, hm, hname⟩ := List.mem_flatMap.1 (List.mem_filter.1 h).1
    rcases Node.mem_preorder.1 hm with rfl | ⟨child, hchild, hm⟩
    · refine ⟨tree, Node.self_mem_preorder tree, ?_⟩
      cases tree
      exact hname
    · rw [withoutLocals, Sheet.children_withChildren] at hchild
      exact ⟨m, hbelow child (List.mem_filter.1 hchild).1 m hm, hname⟩

/-- A name that is read is used or hidden. -/
theorem mem_usedNames_or_hiddenNames {tree : Node} {name : String}
    (h : name ∈ readNames functions tree) :
    name ∈ usedNames functions tree ∨ name ∈ hiddenNames functions tree := by
  by_cases hdefined : some name ∈ tree.preorder.map definedName?
  · exact Or.inr (List.mem_filter.2 ⟨h, by simpa using hdefined⟩)
  · refine Or.inl (mem_usedNames_iff.2 ⟨exists_of_mem_readNames h, fun n hn hname => hdefined ?_⟩)
    exact hname ▸ List.mem_map_of_mem hn

/-- **A template reads the names that are reported as used and those that it hides**: tokens that
    agree on them give the same output without a context. -/
theorem compile_eq_of_usedNames (settings : CompilerSettings) (functions : Functions)
    (template : String) (tokens tokens' : TokenSet)
    (hused : Agree tokens tokens' ((Compiler.start settings functions).usedNames template))
    (hhidden : Agree tokens tokens' (hiddenNames functions (Sheet.parse template))) :
    (((Compiler.start settings functions).withTokens tokens).compile template []).1 =
      (((Compiler.start settings functions).withTokens tokens').compile template []).1 := by
  have hread : Agree tokens tokens' (readNames functions (Sheet.parse template)) := by
    intro name hname
    rcases mem_usedNames_or_hiddenNames hname with hname | hname
    · exact hused name hname
    · exact hhidden name hname
  have hdirect : ∀ set,
      (((Compiler.start settings functions).withTokens set).compile template []).1 =
        ((Compiler.start settings functions).withTokens set).direct ⟨template, []⟩ := by
    intro set
    have hsound := Compiler.Trace.sound_step (Compiler.Trace.sound_start settings functions)
      (.tokens set)
    refine (Compiler.Trace.compile_eq hsound ⟨template, []⟩).trans (congrArg _ ?_)
    rw [Compiler.Trace.source]
    split <;> rfl
  rw [hdirect, hdirect, Compiler.direct_eq, Compiler.direct_eq]
  exact congrArg _ (substitute_congr [] hread)

/-- A definition at the top is read behind it, another one under a rule not at all. -/
theorem compile_eq_of_usedNames_gap :
    let template := "$gap: $base; a { margin: $gap; $pad: 1 }"
    let tokens : TokenSet := [("base", .int 4)]
    let tokens' : TokenSet := [("base", .int 4), ("gap", .int 1), ("pad", .int 2)]
    Agree tokens tokens'
        ((Compiler.start ⟨true, true, true⟩ Functions.builtin).usedNames template) ∧
      Agree tokens tokens' (hiddenNames Functions.builtin (Sheet.parse template)) ∧
      (((Compiler.start ⟨true, true, true⟩ Functions.builtin).withTokens tokens).compile
          template []).1 =
        (((Compiler.start ⟨true, true, true⟩ Functions.builtin).withTokens tokens').compile
          template []).1 := by
  have hused : Agree [("base", .int 4)] [("base", .int 4), ("gap", .int 1), ("pad", .int 2)]
      ((Compiler.start ⟨true, true, true⟩ Functions.builtin).usedNames
        "$gap: $base; a { margin: $gap; $pad: 1 }") := by
    decide +kernel
  have hhidden : Agree [("base", .int 4)] [("base", .int 4), ("gap", .int 1), ("pad", .int 2)]
      (hiddenNames Functions.builtin
        (Sheet.parse "$gap: $base; a { margin: $gap; $pad: 1 }")) := by
    decide +kernel
  exact ⟨hused, hhidden, compile_eq_of_usedNames _ _ _ _ _ hused hhidden⟩

/-- A definition under a rule is reported as one of the template, but nothing reads it. -/
theorem usedNames_miss :
    ¬ ∀ (functions : Functions) (template : String) (tokens tokens' : TokenSet),
      Agree tokens tokens'
          ((Compiler.start ⟨true, true, true⟩ functions).usedNames template) →
        (((Compiler.start ⟨true, true, true⟩ functions).withTokens tokens).compile template []).1 =
          (((Compiler.start ⟨true, true, true⟩ functions).withTokens tokens').compile
            template []).1 := by
  intro h
  have hsame := h Functions.builtin "a { $x: 1; color: $x }" [] [("x", .str "red")]
    (by decide +kernel)
  revert hsame
  decide +kernel

end Style

end Theming
