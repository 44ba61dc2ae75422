import Theming.Proofs.Sheet.Cascade
import Theming.Proofs.Sheet.WellFormed

set_option autoImplicit false

/-! # What the declarations of a tree denote

A declaration denotes its property and its value, together with the condition blocks around it and
with the selectors that the rules around it give, each list of selectors taken below the one around
it. The flat form of a tree that is read writes down just these denotations: each of them once, those
of one block in the order in which they stand there.

The order as a whole is another one, since a rule writes what stands right inside it in front of
what is nested in it. So both lists are compared at each block on its own (`SameAtEach`); this
allows to move entries of a block past those of others, and it also makes the lists permutations of
each other.

Main statement: `settingsOf_parse_perm`. -/

namespace Theming.Sheet

open Node

/-! ## Places -/

/-- The nodes around a node, nearest first, each with its position among its siblings. -/
abbrev Path := List (Nat × Node)

/-- The positions on a path, which tell the block at its end from all others. -/
def placeOf (path : Path) : List Nat := path.map Prod.fst

/-- The condition blocks on a path, outermost first. -/
def chainOf : Path → Chain
  | [] => []
  | (_, n) :: path => if n.kind = .condition then n.chainBelow (chainOf path) else chainOf path

/-- The selectors that the rules on a path give, if there is a rule on it. -/
def scopeOf : Path → Option (List String)
  | [] => none
  | (_, n) :: path =>
    if n.kind = .rule then some (resolveSelectors (scopeOf path) (selectorTexts n.children))
    else scopeOf path

/-! ## Declarations with their places -/

mutual

/-- The declarations of a tree in document order, each with the path to it. -/
def Node.declared (path : Path) (position : Nat) : Node → List (Path × Node)
  | .mk kind properties children =>
    let n := Node.mk kind properties children
    (if kind = .declaration then [(path, n)] else []) ++
      Node.declaredAll ((position, n) :: path) 0 children
termination_by structural n => n

/-- The declarations of several trees at consecutive positions. -/
def Node.declaredAll (path : Path) (position : Nat) : List Node → List (Path × Node)
  | [] => []
  | n :: rest => n.declared path position ++ Node.declaredAll path (position + 1) rest
termination_by structural nodes => nodes

end

/-- What a declaration denotes, with the place of the block that it stands in. -/
def denotation (d : Path × Node) : List Nat × Setting :=
  (placeOf d.1, ⟨chainOf d.1, scopeOf d.1, d.2.prop propertyKey, d.2.prop valueKey⟩)

/-- What the declarations of some nodes at the end of a path denote, in document order. -/
def denotationsAt (path : Path) (position : Nat) (nodes : List Node) : List (List Nat × Setting) :=
  (declaredAll path position nodes).map denotation

/-- What the declarations of a tree denote, in document order. -/
def denotations (tree : Node) : List (List Nat × Setting) := denotationsAt [] 0 tree.children

theorem denotationsAt_append (path : Path) (position : Nat) (a b : List Node) :
    denotationsAt path position (a ++ b) =
      denotationsAt path position a ++ denotationsAt path (position + a.length) b := by
  induction a generalizing position with
  | nil => rfl
  | cons n rest ih =>
    simp only [denotationsAt] at ih ⊢
    rw [List.cons_append, declaredAll, declaredAll, List.map_append, ih, List.map_append,
      List.append_assoc, List.length_cons, Nat.add_right_comm, Nat.add_assoc]

theorem denotationsAt_cons (path : Path) (position : Nat) (n : Node) (nodes : List Node) :
    denotationsAt path position (n :: nodes) =
      denotationsAt path position [n] ++ denotationsAt path (position + 1) nodes :=
  denotationsAt_append path position [n] nodes

/-- A block denotes what its children denote. -/
theorem denotationsAt_block {n : Node} (h : n.kind ≠ .declaration) (path : Path) (position : Nat) :
    denotationsAt path position [n] = denotationsAt ((position, n) :: path) 0 n.children := by
  obtain ⟨kind, properties, children⟩ := n
  have hkind : kind ≠ .declaration := h
  rw [denotationsAt, declaredAll, declaredAll, List.append_nil, declared, if_neg hkind,
    List.nil_append]
  rfl

theorem denotationsAt_selectors (path : Path) (position : Nat) (selectors : List String) :
    denotationsAt path position (selectors.map .selector) = [] := by
  induction selectors generalizing position with
  | nil => rfl
  | cons s rest ih => exact ih (position + 1)

mutual

theorem map_snd_declared (path : Path) (position : Nat) : ∀ n : Node,
    (n.declared path position).map Prod.snd = n.preorder.filter (fun m => m.kind = .declaration)
  | .mk kind properties children => by
    rw [declared, preorder, List.map_append, map_snd_declaredAll, List.filter_cons]
    by_cases hkind : kind = .declaration <;> simp [hkind, Node.kind_mk]
termination_by structural n => n

/-- Without their paths, the declarations of trees are those among their nodes. -/
theorem map_snd_declaredAll (path : Path) (position : Nat) : ∀ nodes : List Node,
    (declaredAll path position nodes).map Prod.snd =
      (preorderAll nodes).filter (fun m => m.kind = .declaration)
  | [] => rfl
  | n :: rest => by
    rw [declaredAll, preorderAll, List.map_append, map_snd_declared, map_snd_declaredAll,
      List.filter_append]
termination_by structural nodes => nodes

end

/-! ## The same entries at each place -/

/-- Two lists have the same entries at each place, in the same order. -/
def SameAtEach (a b : List (List Nat × Setting)) : Prop :=
  ∀ place, a.filter (fun e => e.1 = place) = b.filter (fun e => e.1 = place)

namespace SameAtEach

variable {a b c a' b' : List (List Nat × Setting)}

theorem refl (a : List (List Nat × Setting)) : SameAtEach a a := fun _ => rfl

theorem trans (hab : SameAtEach a b) (hbc : SameAtEach b c) : SameAtEach a c :=
  fun place => (hab place).trans (hbc place)

theorem append (ha : SameAtEach a a') (hb : SameAtEach b b') :
    SameAtEach (a ++ b) (a' ++ b') := fun place => by
  rw [List.filter_append, List.filter_append, ha place, hb place]

/-- Entries of one place can be moved past entries of other places. -/
theorem comm {place : List Nat} (ha : ∀ e ∈ a, e.1 ≠ place) (hb : ∀ e ∈ b, e.1 = place) :
    SameAtEach (b ++ a) (a ++ b) := fun other => by
  rw [List.filter_append, List.filter_append]
  by_cases hother : other = place
  · have hnone : a.filter (fun e => e.1 = other) = [] :=
      List.filter_eq_nil_iff.2 (fun e he => by simpa [hother] using ha e he)
    rw [hnone, List.append_nil, List.nil_append]
  · have hnone : b.filter (fun e => e.1 = other) = [] :=
      List.filter_eq_nil_iff.2 (fun e he => by simpa [hb e he] using Ne.symm hother)
    rw [hnone, List.append_nil, List.nil_append]

/-- Lists with the same entries at each place have the same entries. -/
theorem perm (h : SameAtEach a b) : a.Perm b := by
  refine List.perm_iff_count.2 (fun e => ?_)
  have hcount : ∀ l : List (List Nat × Setting),
      (l.filter (fun other => other.1 = e.1)).count e = l.count e :=
    fun l => List.count_filter (by simp)
  rw [← hcount a, ← hcount b, h e.1]

end SameAtEach

/-! ## Entries gathered in front -/

/-- What the declarations right at the end of a path denote, if a rule is on it. Those entries are
    written in front of what is nested in the block. -/
def gathered (path : Path) (nodes : List Node) : List (List Nat × Setting) :=
  (looseSettings (chainOf path) (scopeOf path) nodes).map (fun e => (placeOf path, e))

theorem gathered_nil (path : Path) : gathered path [] = [] := by
  unfold gathered
  cases scopeOf path <;> rfl

theorem gathered_cons (path : Path) (n : Node) (nodes : List Node) :
    gathered path (n :: nodes) = gathered path [n] ++ gathered path nodes := by
  unfold gathered looseSettings
  cases scopeOf path with
  | none => rfl
  | some selectors =>
    dsimp only
    rw [ownSettings_cons, List.map_append]

theorem gathered_of_kind {n : Node} (h : n.kind ≠ .declaration) (path : Path) (nodes : List Node) :
    gathered path (n :: nodes) = gathered path nodes := by
  have hnone : gathered path [n] = [] := by
    unfold gathered looseSettings ownSettings
    cases scopeOf path <;> simp [h]
  rw [gathered_cons, hnone, List.nil_append]

theorem gathered_selectors (path : Path) (selectors : List String) (nodes : List Node) :
    gathered path (selectors.map .selector ++ nodes) = gathered path nodes := by
  induction selectors with
  | nil => rfl
  | cons s rest ih =>
    rw [List.map_cons, List.cons_append, gathered_of_kind Kind.noConfusion, ih]

theorem place_of_mem_gathered {path : Path} {nodes : List Node} {e : List Nat × Setting}
    (h : e ∈ gathered path nodes) : e.1 = placeOf path := by
  obtain ⟨setting, -, rfl⟩ := List.mem_map.1 h
  rfl

theorem map_snd_gathered (path : Path) (nodes : List Node) :
    (gathered path nodes).map Prod.snd = looseSettings (chainOf path) (scopeOf path) nodes := by
  rw [gathered, List.map_map]
  exact List.map_id _

theorem scope_of_gathered {path : Path} {nodes : List Node} (h : gathered path nodes ≠ []) :
    (scopeOf path).isSome = true := by
  cases hscope : scopeOf path with
  | none => exact absurd (by rw [gathered, hscope]; rfl) h
  | some selectors => rfl

theorem settingsAll_selectors (chain : Chain) (scope : Option (List String))
    (selectors : List String) : Node.settingsAll chain scope (selectors.map .selector) = [] := by
  induction selectors with
  | nil => rfl
  | cons s rest ih => exact ih

/-! ## Entries with their places -/

/-- Entries that are the settings of the nodes at the end of a path, each with its place, without
    those that are gathered in front. Together with these they are what the nodes denote. -/
structure Placed (path : Path) (position : Nat) (nodes : List Node)
    (nested : List (List Nat × Setting)) : Prop where
  settings : nested.map Prod.snd = Node.settingsAll (chainOf path) (scopeOf path) nodes
  below : (scopeOf path).isSome = true → ∀ e ∈ nested, path.length < e.1.length
  same : SameAtEach (gathered path nodes ++ nested) (denotationsAt path position nodes)

namespace Placed

variable {path : Path} {position : Nat} {nodes : List Node}
  {inner nested : List (List Nat × Setting)}

theorem nil (path : Path) (position : Nat) : Placed path position [] [] := by
  refine ⟨rfl, fun _ _ he => absurd he List.not_mem_nil, ?_⟩
  rw [gathered_nil]
  exact .refl []

/-- Entries that lie deeper are written behind those gathered from the nodes that follow. -/
theorem sameAtEach_cons {n : Node}
    (hbelow : (scopeOf path).isSome = true → ∀ e ∈ inner, path.length < e.1.length)
    (hself : SameAtEach (gathered path [n] ++ inner) (denotationsAt path position [n]))
    (h : Placed path (position + 1) nodes nested) :
    SameAtEach (gathered path (n :: nodes) ++ (inner ++ nested))
      (denotationsAt path position (n :: nodes)) := by
  have hmove : SameAtEach (gathered path nodes ++ inner) (inner ++ gathered path nodes) := by
    by_cases hnone : gathered path nodes = []
    · rw [hnone, List.append_nil]
      exact .refl inner
    · refine .comm (fun e he hplace => ?_) (fun e he => place_of_mem_gathered he)
      have hlength := hbelow (scope_of_gathered hnone) e he
      rw [hplace, placeOf, List.length_map] at hlength
      exact Nat.lt_irrefl _ hlength
  have hfront := (SameAtEach.refl (gathered path [n])).append (hmove.append (.refl nested))
  rw [gathered_cons, denotationsAt_cons]
  refine SameAtEach.trans ?_ (hself.append h.same)
  simpa only [List.append_assoc] using hfront

theorem comment (text : String) (h : Placed path (position + 1) nodes nested) :
    Placed path position (.comment text :: nodes) nested :=
  ⟨h.settings, h.below, (gathered_of_kind (n := .comment text) Kind.noConfusion path nodes) ▸ h.same⟩

theorem selectors (selectors : List String)
    (h : Placed path (position + selectors.length) nodes nested) :
    Placed path position (selectors.map .selector ++ nodes) nested := by
  refine ⟨?_, h.below, ?_⟩
  · rw [settingsAll_append, settingsAll_selectors, List.nil_append, h.settings]
  · rw [gathered_selectors, denotationsAt_append, denotationsAt_selectors, List.nil_append,
      List.length_map]
    exact h.same

/-- A declaration is gathered in front if a rule is on the path; otherwise it is written where it
    stands. -/
theorem declaration (property value : String) (h : Placed path (position + 1) nodes nested) :
    ∃ own, Placed path position (.declaration property value :: nodes) (own ++ nested) := by
  let n := Node.declaration property value
  cases hscope : scopeOf path with
  | none =>
    have hsome : (scopeOf path).isSome ≠ true := by simp [hscope]
    have hnone : gathered path [n] = [] := by rw [gathered, hscope]; rfl
    refine ⟨denotationsAt path position [n], ?_, fun h => absurd h hsome, ?_⟩
    · rw [List.map_append, h.settings, Node.settingsAll, hscope]
      simp [denotationsAt, declaredAll, declared, denotation, Node.settings, ownSettings,
        Node.declaration, hscope, n]
    · exact sameAtEach_cons (fun h => absurd h hsome) (hnone ▸ .refl _) h
  | some selectors =>
    have hself : gathered path [n] = denotationsAt path position [n] := by
      rw [gathered, hscope]
      simp [looseSettings, ownSettings, denotationsAt, declaredAll, declared, denotation,
        Node.declaration, hscope, n]
    refine ⟨[], ?_, h.below, ?_⟩
    · rw [List.nil_append, h.settings, Node.settingsAll, hscope]
      rfl
    · exact sameAtEach_cons (fun _ _ he => absurd he List.not_mem_nil)
        (by rw [List.append_nil, hself]; exact .refl _) h

end Placed

/-- A block says what stands right inside it in front of what is nested in it. -/
theorem settings_block {n : Node} (hblock : n.isBlock = true) (path : Path) (position : Nat) :
    n.settings (chainOf path) (scopeOf path) =
      looseSettings (chainOf ((position, n) :: path)) (scopeOf ((position, n) :: path)) n.children ++
        Node.settingsAll (chainOf ((position, n) :: path)) (scopeOf ((position, n) :: path))
          n.children := by
  obtain ⟨kind, properties, children⟩ := n
  cases kind with
  | rule => rfl
  | condition => rfl
  | root | selector | declaration | comment => cases hblock

theorem isSome_scopeOf_cons {path : Path} (h : (scopeOf path).isSome = true) (position : Nat)
    (n : Node) : (scopeOf ((position, n) :: path)).isSome = true := by
  rw [scopeOf]
  split
  · rfl
  · exact h

/-- A block, with what is nested in it. -/
theorem Placed.block {path : Path} {position : Nat} {n : Node} {nodes : List Node}
    {inner nested : List (List Nat × Setting)} (hblock : n.isBlock = true)
    (hinner : Placed ((position, n) :: path) 0 n.children inner)
    (h : Placed path (position + 1) nodes nested) :
    Placed path position (n :: nodes)
      (gathered ((position, n) :: path) n.children ++ inner ++ nested) := by
  have hkind : n.kind ≠ .declaration := fun h => by simp [isBlock, h] at hblock
  have hnone : gathered path [n] = [] := (gathered_of_kind hkind path []).trans (gathered_nil path)
  have hbelow : (scopeOf path).isSome = true →
      ∀ e ∈ gathered ((position, n) :: path) n.children ++ inner, path.length < e.1.length := by
    intro hsome e he
    rcases List.mem_append.1 he with he | he
    · rw [place_of_mem_gathered he, placeOf, List.length_map]
      exact Nat.lt_succ_self _
    · exact Nat.lt_of_succ_lt (hinner.below (isSome_scopeOf_cons hsome position n) e he)
  refine ⟨?_, fun hsome => ?_, Placed.sameAtEach_cons hbelow ?_ h⟩
  · rw [List.map_append, List.map_append, map_snd_gathered, hinner.settings, h.settings,
      ← settings_block hblock, Node.settingsAll]
  · exact List.forall_mem_append.2 ⟨hbelow hsome, h.below hsome⟩
  · rw [hnone, denotationsAt_block hkind]
    exact hinner.same

/-- Nodes that are built can be placed at the end of every path. -/
theorem Built.placed {depth : Nat} {nodes : List Node} (h : Built depth nodes) (path : Path)
    (position : Nat) : ∃ nested, Placed path position nodes nested := by
  induction h generalizing path position with
  | nil => exact ⟨[], .nil path position⟩
  | comment text _ ih =>
    obtain ⟨nested, hrest⟩ := ih path (position + 1)
    exact ⟨nested, hrest.comment text⟩
  | @declaration _ _ property value _ _ ih =>
    obtain ⟨nested, hrest⟩ := ih path (position + 1)
    obtain ⟨own, hself⟩ := hrest.declaration property value
    exact ⟨own ++ nested, hself⟩
  | @rule _ body _ selectors _ _ _ _ _ ihbody ih =>
    let n := Node.rule (selectors.map .selector ++ body)
    obtain ⟨nested, hrest⟩ := ih path (position + 1)
    obtain ⟨inner, hbody⟩ := ihbody ((position, n) :: path) (0 + selectors.length)
    exact ⟨_, .block (n := n) rfl (.selectors selectors hbody) hrest⟩
  | @condition _ body _ name prelude _ _ _ _ ihbody ih =>
    let n := Node.condition name prelude body
    obtain ⟨nested, hrest⟩ := ih path (position + 1)
    obtain ⟨inner, hbody⟩ := ihbody ((position, n) :: path) 0
    exact ⟨_, .block (n := n) rfl hbody hrest⟩

/-! ## Flat forms -/

/-- **The flat form writes what the declarations denote.** Its settings can be told where they come
    from so that they are a permutation of what the declarations of the tree denote, with those of
    each block in the order in which they stand in it. -/
theorem settingsOf_parse_perm (dropComments : Bool) (template : String) :
    ∃ placed : List (List Nat × Setting),
      placed.map Prod.snd = settingsOf dropComments (parse template) ∧
        placed.Perm (denotations (parse template)) ∧
        ∀ place, placed.filter (fun e => e.1 = place) =
          (denotations (parse template)).filter (fun e => e.1 = place) := by
  obtain ⟨placed, h⟩ := (built_parse template).placed [] 0
  have hsame : SameAtEach placed (denotations (parse template)) := h.same
  exact ⟨placed, h.settings.trans (settingsOf_eq dropComments (parse template)).symm, hsame.perm,
    hsame⟩

/-- What holds of each property and its value can be seen in the tree or in its flat form. -/
theorem forall_mem_settingsOf_parse {P : String → String → Prop} (dropComments : Bool)
    (template : String) :
    (∀ e ∈ settingsOf dropComments (parse template), P e.property e.value) ↔
      ∀ n ∈ (parse template).preorder, n.kind = .declaration →
        P (n.prop propertyKey) (n.prop valueKey) := by
  obtain ⟨placed, h⟩ := (built_parse template).placed [] 0
  have hsame : SameAtEach placed (denotations (parse template)) := h.same
  have hsettings : settingsOf dropComments (parse template) = placed.map Prod.snd :=
    (settingsOf_eq dropComments (parse template)).trans h.settings.symm
  have hdeclared : (declaredAll [] 0 (parse template).children).map Prod.snd =
      (parse template).preorder.filter (fun m => m.kind = .declaration) :=
    map_snd_declaredAll [] 0 (read template).nodes
  have hplaced : (∀ e ∈ placed, P e.2.property e.2.value) ↔
      ∀ e ∈ denotations (parse template), P e.2.property e.2.value :=
    forall_congr' fun e => by rw [hsame.perm.mem_iff]
  rw [hsettings, List.forall_mem_map, hplaced, denotations, denotationsAt, List.forall_mem_map]
  calc (∀ d ∈ declaredAll [] 0 (parse template).children,
        P (d.2.prop propertyKey) (d.2.prop valueKey))
      ↔ ∀ n ∈ (declaredAll [] 0 (parse template).children).map Prod.snd,
          P (n.prop propertyKey) (n.prop valueKey) := by rw [List.forall_mem_map]
    _ ↔ _ := by
      rw [hdeclared]
      simp [List.mem_filter]

end Theming.Sheet
