import Theming.Proofs.Sheet.Values

set_option autoImplicit false

/-! # Repeated selectors

The last of the merging passes drops selectors that occur twice in a rule. Who is in a list of
selectors does not change with that, and values depend on nothing else of the list
(`sameValues_keepFirstSelectors`). -/

namespace Theming.Sheet

open Node

/-! ## Scopes -/

/-- Two places with the same selectors, whatever their order and number. -/
def SameScope (a b : Option (List String)) : Prop := ∀ selector, covers a selector = covers b selector

/-- The top level is like no rule. -/
theorem SameScope.none_or_some {a b : Option (List String)} (h : SameScope a b) :
    (a = none ∧ b = none) ∨ ∃ l l', a = some l ∧ b = some l' := by
  have htop := h none
  cases a with
  | none =>
    cases b with
    | none => exact Or.inl ⟨rfl, rfl⟩
    | some l => cases htop
  | some l =>
    cases b with
    | none => cases htop
    | some l' => exact Or.inr ⟨l, l', rfl, rfl⟩

theorem SameScope.resolve {a b : Option (List String)} (h : SameScope a b) {own own' : List String}
    (howns : ∀ s, s ∈ own ↔ s ∈ own') :
    SameScope (some (resolveSelectors a own)) (some (resolveSelectors b own')) := by
  intro selector
  cases selector with
  | none => rfl
  | some s =>
    rw [Bool.eq_iff_iff]
    rcases h.none_or_some with ⟨rfl, rfl⟩ | ⟨l, l', rfl, rfl⟩
    · simp only [covers, resolveSelectors, List.contains_iff_mem, howns s]
    · have hmem : ∀ o, o ∈ l ↔ o ∈ l' := by
        intro o
        have hcovers := h (some o)
        rwa [covers, covers, Bool.eq_iff_iff, List.contains_iff_mem, List.contains_iff_mem]
          at hcovers
      simp only [covers, resolveSelectors, List.contains_iff_mem, List.mem_flatMap, List.mem_map]
      constructor
      · rintro ⟨outer, houter, inner, hinner, heq⟩
        exact ⟨outer, (hmem outer).1 houter, inner, (howns inner).1 hinner, heq⟩
      · rintro ⟨outer, houter, inner, hinner, heq⟩
        exact ⟨outer, (hmem outer).2 houter, inner, (howns inner).2 hinner, heq⟩

theorem sameValues_ownSettings {within within' : Option (List String)}
    (hscope : SameScope within within') {nodes nodes' : List Node}
    (h : ∀ property, lastAssigned property nodes = lastAssigned property nodes') (chain : Chain) :
    SameValues (ownSettings chain within nodes) (ownSettings chain within' nodes') := by
  intro c selector property _
  rw [lastValue_ownSettings, lastValue_ownSettings, hscope selector, h property]

/-- Among equal selectors, the first one is there to stay. -/
theorem mem_selectorTexts_keepFirst (seen : List String) (nodes : List Node) (s : String) :
    s ∈ seen ∨ s ∈ selectorTexts (keepFirst seen nodes) ↔
      s ∈ seen ∨ s ∈ selectorTexts nodes := by
  induction nodes generalizing seen with
  | nil => rfl
  | cons n rest ih =>
    have hcons : ∀ l : List Node, selectorTexts (n :: l) =
        if n.kind = .selector then n.prop textKey :: selectorTexts l else selectorTexts l := by
      intro l
      unfold selectorTexts
      by_cases hk : n.kind = .selector <;> simp [hk]
    rw [keepFirst, hcons rest]
    by_cases hk : n.kind = .selector
    · simp only [hk, ↓reduceIte]
      by_cases hseen : seen.contains (n.prop textKey) = true
      · -- A selector that goes has been seen, so it is on the left.
        rw [if_pos hseen, ih seen]
        rw [List.contains_iff_mem] at hseen
        constructor
        · exact fun h => h.imp_right (List.mem_cons_of_mem _)
        · rintro (h | h)
          · exact Or.inl h
          · rcases List.mem_cons.1 h with rfl | h
            · exact Or.inl hseen
            · exact Or.inr h
      · rw [if_neg hseen, hcons, if_pos hk]
        have := ih (n.prop textKey :: seen)
        simp only [List.mem_cons] at this ⊢
        rw [← or_assoc, ← or_assoc, or_comm (a := s ∈ seen)]
        exact this
    · simp only [hk, ↓reduceIte]
      rw [hcons, if_neg hk]
      exact ih seen

theorem lastAssigned_keepFirst (property : String) (seen : List String) (nodes : List Node) :
    lastAssigned property (keepFirst seen nodes) = lastAssigned property nodes := by
  induction nodes generalizing seen with
  | nil => rfl
  | cons n rest ih =>
    have hselector : n.kind = .selector → lastAssigned property [n] = none := by
      intro hk
      exact lastAssigned_eq_none (fun m hm => by
        rw [List.mem_singleton.1 hm, hk]
        decide)
    rw [keepFirst, lastAssigned_cons property n rest]
    by_cases hk : n.kind = .selector
    · rw [if_pos hk, hselector hk, Option.or_none]
      dsimp only
      split
      · exact ih seen
      · rw [lastAssigned_cons, hselector hk, Option.or_none]
        exact ih _
    · rw [if_neg hk, lastAssigned_cons, ih seen]

theorem settingsAll_keepFirst (chain : Chain) (selectors : List String) (seen : List String)
    (nodes : List Node) :
    settingsAll chain (some selectors) (keepFirst seen nodes) =
      settingsAll chain (some selectors) nodes := by
  induction nodes generalizing seen with
  | nil => rfl
  | cons n rest ih =>
    rw [keepFirst, settingsAll]
    by_cases hk : n.kind = .selector
    · have hnothing : n.settings chain (some selectors) = [] :=
        settings_inside_of_not_block chain selectors n (by simp [isBlock, hk])
      rw [if_pos hk, hnothing, List.nil_append]
      dsimp only
      split
      · exact ih seen
      · rw [settingsAll, hnothing, List.nil_append]
        exact ih _
    · rw [if_neg hk, settingsAll, ih seen]

theorem keepsHead_keepFirstSelectors : KeepsHead keepFirstSelectors := keepsHead_rebuild _

/-- Dropping repeated selectors keeps the values under any scope with the same selectors. -/
theorem sameValues_keepFirstSelectors : ∀ (n : Node) (chain : Chain)
    (scope scope' : Option (List String)), SameScope scope scope' →
    SameValues (n.keepFirstSelectors.settings chain scope) (n.settings chain scope')
  | .mk kind properties children, chain, scope, scope', hscope => by
    have hnested : ∀ chain scope scope', SameScope scope scope' →
        SameValues (settingsAll chain scope (children.map keepFirstSelectors))
          (settingsAll chain scope' children) := by
      intro chain scope scope' hscope
      have hmap := @sameValues_map keepFirstSelectors id chain scope scope' children
        (fun c hc => sameValues_keepFirstSelectors c chain scope scope' hscope)
      rwa [List.map_id] at hmap
    cases kind with
    | rule =>
      have hchildren : (Node.mk .rule properties children).keepFirstSelectors.children =
          keepFirst [] (children.map keepFirstSelectors) := children_rebuild _ _
      have hselectors : ∀ s, s ∈ selectorTexts (keepFirst [] (children.map keepFirstSelectors)) ↔
          s ∈ selectorTexts children := by
        intro s
        have := mem_selectorTexts_keepFirst [] (children.map keepFirstSelectors) s
        rw [keepsHead_keepFirstSelectors.selectorTexts_map] at this
        simpa using this
      -- Below the rule the selectors are resolved from lists with the same members.
      have hresolve := hscope.resolve hselectors
      rw [settings_rule ((keepsHead_keepFirstSelectors.kind _).trans rfl), settings_rule rfl,
        hchildren, settingsAll_keepFirst]
      refine SameValues.append ?_ (hnested _ _ _ hresolve)
      apply sameValues_ownSettings hresolve
      intro property
      rw [lastAssigned_keepFirst, keepsHead_keepFirstSelectors.lastAssigned_map]
      rfl
    | condition =>
      have hchildren : (Node.mk .condition properties children).keepFirstSelectors.children =
          children.map keepFirstSelectors := children_rebuild _ _
      have hchain : (Node.mk .condition properties children).keepFirstSelectors.chainBelow chain =
          (Node.mk .condition properties children).chainBelow chain := by
        unfold chainBelow
        rw [keepsHead_keepFirstSelectors.prop, keepsHead_keepFirstSelectors.prop]
      rw [settings_condition ((keepsHead_keepFirstSelectors.kind _).trans rfl),
        settings_condition rfl, hchain, hchildren]
      refine SameValues.append ?_ (hnested _ _ _ hscope)
      rcases hscope.none_or_some with ⟨rfl, rfl⟩ | ⟨l, l', rfl, rfl⟩
      · exact SameValues.refl _
      · exact sameValues_ownSettings hscope
          (fun property => keepsHead_keepFirstSelectors.lastAssigned_map property children) _
    | declaration =>
      rw [keepsHead_keepFirstSelectors.settings_of_not_block rfl]
      rcases hscope.none_or_some with ⟨rfl, rfl⟩ | ⟨l, l', rfl, rfl⟩
      · exact SameValues.refl _
      · exact SameValues.refl _
    | root => exact SameValues.refl _
    | selector => exact SameValues.refl _
    | comment => exact SameValues.refl _
termination_by n => sizeOf n
decreasing_by
  have := List.sizeOf_lt_of_mem hc
  simp only [Node.mk.sizeOf_spec]
  omega

end Theming.Sheet
