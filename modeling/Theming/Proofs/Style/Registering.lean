import Mathlib.Data.List.DropRight
import Mathlib.Data.List.Induction
import Theming.Proofs.Style.Caching
import Theming.Proofs.Text.Trimming

set_option autoImplicit false

/-! # What the rules of an overlay say about its history

Rules are registered by selector: a later one takes the place of an earlier one, and a removed one
comes back at the end. So the rules that an overlay holds can be told from what was done with it:
each is the last one that was accepted for its selector since that was last taken away (`current`),
and they stand in the order in which their selectors came since then (`firstAt`). These definitions
speak about the list of operations only.

One step keeps this up (`Trace.follows_step`), so it holds after every run (`Trace.follows_run`). The
main result is `registry_run`. -/

namespace Theming.Style.Overlay

/-! ## Histories -/

namespace Op

/-- The rule that an operation registers for a selector, if it is accepted. -/
def registered? (selector : String) : Op → Option Rule
  | .add rule =>
    if rule.trimmed.isNamed && rule.trimmed.selector = selector then some rule.trimmed else none
  | _ => none

/-- Whether an operation takes away what is registered for a selector. -/
def ends (selector : String) : Op → Bool
  | .remove given => Text.trimmed given = selector
  | .clear => true
  | _ => false

end Op

/-- What was done since the rule of a selector was last taken away. -/
def since (selector : String) (ops : List Op) : List Op :=
  ops.rtakeWhile (fun op => !op.ends selector)

/-- The rule that was last accepted for a selector since then. -/
def current (selector : String) (ops : List Op) : Option Rule :=
  ((since selector ops).filterMap (Op.registered? selector)).getLast?

/-- How much was done before the first rule was accepted for a selector since then. -/
def firstAt (selector : String) (ops : List Op) : Nat :=
  (ops.length - (since selector ops).length) +
    (since selector ops).findIdx (fun op => (op.registered? selector).isSome)

/-- Whether an operation changes the rules, after others. -/
def Op.isEffective (before : List Op) : Op → Bool
  | .add rule => rule.trimmed.isNamed
  | .remove selector => (current (Text.trimmed selector) before).isSome
  | .clear => true
  | _ => false

/-- How many operations change the rules, after others. -/
def changesAfter (before : List Op) : List Op → Nat
  | [] => 0
  | op :: rest => (if op.isEffective before then 1 else 0) + changesAfter (before ++ [op]) rest

/-- How many operations of a history changed the rules. -/
def changes (ops : List Op) : Nat := changesAfter [] ops

/-! ### One operation more -/

variable {selector : String} {ops : List Op} {op : Op}

theorem since_concat : since selector (ops ++ [op]) =
    if op.ends selector then [] else since selector ops ++ [op] := by
  unfold since
  rw [List.rtakeWhile_concat]
  cases op.ends selector <;> rfl

theorem current_concat : current selector (ops ++ [op]) =
    if op.ends selector then none else (op.registered? selector).or (current selector ops) := by
  unfold current
  rw [since_concat]
  split
  · rfl
  · rw [List.filterMap_append, List.getLast?_append]
    cases hrule : op.registered? selector with
    | none => simp [hrule]
    | some rule => simp [hrule]

theorem isSome_current_iff : (current selector ops).isSome ↔
    ∃ op ∈ since selector ops, (op.registered? selector).isSome := by
  rw [current, List.getLast?_isSome, ne_eq, List.filterMap_eq_nil_iff]
  simp [Option.isSome_iff_ne_none]

theorem length_since_le (selector : String) (ops : List Op) :
    (since selector ops).length ≤ ops.length :=
  (List.rtakeWhile_suffix _ _).length_le

theorem firstAt_lt (h : (current selector ops).isSome) : firstAt selector ops < ops.length := by
  have hindex := List.findIdx_lt_length.2 (isSome_current_iff.1 h)
  have hlength := length_since_le selector ops
  unfold firstAt
  omega

/-- A selector that is registered keeps its place. -/
theorem firstAt_concat_of_isSome (hends : op.ends selector = false)
    (h : (current selector ops).isSome) :
    firstAt selector (ops ++ [op]) = firstAt selector ops := by
  have hindex := List.findIdx_lt_length.2 (isSome_current_iff.1 h)
  have hlength := length_since_le selector ops
  unfold firstAt
  rw [since_concat, if_neg (by simp [hends]), List.findIdx_append, if_pos hindex,
    List.length_append, List.length_append, List.length_singleton]
  omega

/-- A selector that is not registered comes behind all others. -/
theorem firstAt_concat_of_none (hends : op.ends selector = false)
    (hop : (op.registered? selector).isSome) (h : current selector ops = none) :
    firstAt selector (ops ++ [op]) = ops.length := by
  have hindex : ¬ (since selector ops).findIdx (fun op => (op.registered? selector).isSome) <
      (since selector ops).length := by
    rw [List.findIdx_lt_length, ← isSome_current_iff, h]
    exact Bool.false_ne_true
  have hlength := length_since_le selector ops
  unfold firstAt
  rw [since_concat, if_neg (by simp [hends]), List.findIdx_append, if_neg hindex,
    List.length_append, List.length_append, List.length_singleton, List.findIdx_cons, hop]
  simp
  omega

theorem changesAfter_concat (before ops : List Op) (op : Op) :
    changesAfter before (ops ++ [op]) =
      changesAfter before ops + if op.isEffective (before ++ ops) then 1 else 0 := by
  induction ops generalizing before with
  | nil => simp [changesAfter]
  | cons first rest ih =>
    rw [List.cons_append, changesAfter, changesAfter, ih, List.append_assoc, List.singleton_append,
      Nat.add_assoc]

theorem changes_concat (ops : List Op) (op : Op) :
    changes (ops ++ [op]) = changes ops + if op.isEffective ops then 1 else 0 :=
  changesAfter_concat [] ops op

/-- What is accepted has the selector, trimmed, and names for all that it sets. -/
theorem of_registered? {rule : Rule} (h : op.registered? selector = some rule) :
    rule.selector = selector ∧ rule.isNamed = true ∧ ∃ given, rule = Rule.trimmed given := by
  cases op with
  | add given =>
    rw [Op.registered?] at h
    split at h
    · next hgiven =>
      rw [Bool.and_eq_true, decide_eq_true_eq] at hgiven
      cases h
      exact ⟨hgiven.2, hgiven.1, given, rfl⟩
    · cases h
  | remove selector => cases h
  | clear => cases h
  | settings settings => cases h
  | tokens set => cases h
  | generate request => cases h

theorem of_current {rule : Rule} (h : current selector ops = some rule) :
    rule.selector = selector ∧ rule.isNamed = true ∧ ∃ given, rule = Rule.trimmed given := by
  obtain ⟨op, -, hop⟩ := List.mem_filterMap.1 (List.mem_of_getLast? h)
  exact of_registered? hop

/-! ## Placing rules -/

theorem mem_place {rule r : Rule} {rules : List Rule} (h : (rules.map Rule.selector).Nodup) :
    r ∈ place rule rules ↔ r = rule ∨ r ∈ rules ∧ r.selector ≠ rule.selector := by
  induction rules with
  | nil => simp [place]
  | cons first rest ih =>
    rw [List.map_cons, List.nodup_cons] at h
    rw [place]
    split
    · next hsame =>
      -- No other rule has this selector.
      have hothers : ∀ other ∈ rest, other.selector ≠ rule.selector := by
        intro other hother heq
        exact h.1 (List.mem_map.2 ⟨other, hother, heq.trans hsame.symm⟩)
      rw [List.mem_cons, List.mem_cons]
      constructor
      · rintro (rfl | hr)
        · exact Or.inl rfl
        · exact Or.inr ⟨Or.inr hr, hothers r hr⟩
      · rintro (rfl | ⟨rfl | hr, hne⟩)
        · exact Or.inl rfl
        · exact absurd hsame hne
        · exact Or.inr hr
    · next hother =>
      rw [List.mem_cons, List.mem_cons, ih h.2]
      constructor
      · rintro (rfl | rfl | ⟨hr, hne⟩)
        · exact Or.inr ⟨Or.inl rfl, hother⟩
        · exact Or.inl rfl
        · exact Or.inr ⟨Or.inr hr, hne⟩
      · rintro (rfl | ⟨rfl | hr, hne⟩)
        · exact Or.inr (Or.inl rfl)
        · exact Or.inl rfl
        · exact Or.inr (Or.inr ⟨hr, hne⟩)

/-- A rule takes the place of the one with its selector, or comes last. -/
theorem map_selector_place (rule : Rule) (rules : List Rule) :
    (place rule rules).map Rule.selector =
      if rule.selector ∈ rules.map Rule.selector then rules.map Rule.selector
      else rules.map Rule.selector ++ [rule.selector] := by
  induction rules with
  | nil => rfl
  | cons first rest ih =>
    rw [place]
    split
    · next hsame => simp [hsame]
    · next hother =>
      rw [List.map_cons, ih]
      have hne : rule.selector ≠ first.selector := fun heq => hother heq.symm
      by_cases hmem : rule.selector ∈ rest.map Rule.selector
      · simp [hmem]
      · simp [hmem, hne]

/-! ## Steps -/

/-- The rules of an overlay are told by a history, and its version counts the changes. -/
structure Follows (ops : List Op) (o : Overlay) : Prop where
  rules : ∀ rule, rule ∈ o.rules ↔ current rule.selector ops = some rule
  order : (o.rules.map Rule.selector).Pairwise (fun a b => firstAt a ops < firstAt b ops)
  version : o.version = changes ops

namespace Follows

variable {o : Overlay}

theorem nodup (h : Follows ops o) : (o.rules.map Rule.selector).Nodup :=
  h.order.imp (fun hlt heq => absurd hlt (by rw [heq]; exact Nat.lt_irrefl _))

/-- The selectors of the rules are those that something is registered for. -/
theorem mem_selectors_iff (h : Follows ops o) :
    selector ∈ o.rules.map Rule.selector ↔ (current selector ops).isSome := by
  rw [List.mem_map, Option.isSome_iff_exists]
  constructor
  · rintro ⟨rule, hrule, rfl⟩
    exact ⟨rule, (h.rules rule).1 hrule⟩
  · rintro ⟨rule, hrule⟩
    have hselector := (of_current hrule).1
    exact ⟨rule, (h.rules rule).2 (by rw [hselector, hrule]), hselector⟩

/-- Selectors that stay registered keep their order. -/
theorem order_concat (h : Follows ops o) (op : Op) {selectors : List String}
    (hsub : selectors.Sublist (o.rules.map Rule.selector))
    (hends : ∀ s ∈ selectors, op.ends s = false) :
    selectors.Pairwise (fun a b => firstAt a (ops ++ [op]) < firstAt b (ops ++ [op])) := by
  refine (h.order.sublist hsub).imp_of_mem ?_
  intro a b ha hb hlt
  have hkept : ∀ s ∈ selectors, firstAt s (ops ++ [op]) = firstAt s ops := fun s hs =>
    firstAt_concat_of_isSome (hends s hs) (h.mem_selectors_iff.1 (hsub.subset hs))
  rwa [hkept a ha, hkept b hb]

/-- An operation that has nothing to do with rules. -/
theorem idle (h : Follows ops o) {o' : Overlay} (hrules : o'.rules = o.rules)
    (hversion : o'.version = o.version) (hends : ∀ s, op.ends s = false)
    (hregistered : ∀ s, op.registered? s = none) (heffective : op.isEffective ops = false) :
    Follows (ops ++ [op]) o' where
  rules rule := by
    rw [hrules, current_concat, hends, if_neg Bool.false_ne_true, hregistered, Option.none_or]
    exact h.rules rule
  order := by
    rw [hrules]
    exact h.order_concat _ (List.Sublist.refl _) (fun s _ => hends s)
  version := by
    rw [hversion, changes_concat, heffective]
    exact h.version

/-- An accepted rule is the current one of its selector; the others stay. -/
theorem place (h : Follows ops o) {given : Rule} (hnamed : given.trimmed.isNamed = true) :
    Follows (ops ++ [.add given]) (o.withRules (place given.trimmed o.rules)) where
  rules r := by
    have hends : (Op.add given).ends r.selector = false := rfl
    show r ∈ Overlay.place given.trimmed o.rules ↔ _
    rw [mem_place h.nodup, current_concat, hends, if_neg Bool.false_ne_true, Op.registered?,
      hnamed, Bool.true_and, h.rules]
    by_cases hselector : given.trimmed.selector = r.selector
    · simp [hselector, eq_comm]
    · have hne : r ≠ given.trimmed := fun heq => hselector (by rw [heq])
      simp [hselector, hne, Ne.symm hselector]
  order := by
    show ((Overlay.place given.trimmed o.rules).map Rule.selector).Pairwise _
    rw [map_selector_place]
    have hkept := h.order_concat (.add given) (List.Sublist.refl _) (fun _ _ => rfl)
    split
    · exact hkept
    · next hnew =>
      -- A selector that is new comes behind all others, which were there before.
      rw [List.pairwise_append]
      refine ⟨hkept, List.pairwise_singleton _ _, ?_⟩
      intro s hs last hlast
      rw [List.mem_singleton.1 hlast]
      have hsome := h.mem_selectors_iff.1 hs
      have hnone : current given.trimmed.selector ops = none := by
        rw [h.mem_selectors_iff, Option.not_isSome_iff_eq_none] at hnew
        exact hnew
      have hregistered : ((Op.add given).registered? given.trimmed.selector).isSome := by
        simp [Op.registered?, hnamed]
      rw [firstAt_concat_of_isSome rfl hsome, firstAt_concat_of_none rfl hregistered hnone]
      exact firstAt_lt hsome
  version := by
    rw [changes_concat, Op.isEffective, hnamed, if_pos rfl, ← h.version]
    rfl

theorem add (h : Follows ops o) (given : Rule) :
    Follows (ops ++ [.add given]) ((o.add given).getD o) := by
  cases hnamed : given.trimmed.isNamed with
  | true =>
    rw [add_eq_some_iff.2 ⟨hnamed, rfl⟩]
    exact h.place hnamed
  | false =>
    have hadd : o.add given = none := by
      rw [Option.eq_none_iff_forall_ne_some]
      intro o' hsome
      rw [(add_eq_some_iff.1 hsome).1] at hnamed
      cases hnamed
    rw [hadd]
    refine h.idle rfl rfl (fun _ => rfl) (fun s => ?_) hnamed
    rw [Op.registered?, hnamed]
    rfl

/-- A removal is accepted just if something is registered for its selector. -/
theorem isSome_remove (h : Follows ops o) (given : String) :
    (o.remove given).isSome = (Op.remove given).isEffective ops := by
  rw [Bool.eq_iff_iff, Op.isEffective, ← h.mem_selectors_iff, Option.isSome_iff_exists, List.mem_map]
  simp [remove_eq_some_iff]

/-- What is removed is no longer current; the others stay, in order. -/
theorem remove (h : Follows ops o) (given : String) :
    Follows (ops ++ [.remove given]) ((o.remove given).getD o) := by
  have hafter : ((o.remove given).getD o).rules =
        o.rules.filter (fun r => r.selector ≠ Text.trimmed given) ∧
      ((o.remove given).getD o).version =
        o.version + if (Op.remove given).isEffective ops then 1 else 0 := by
    have heffective := h.isSome_remove given
    cases hremove : o.remove given with
    | some o' =>
      rw [hremove] at heffective
      obtain ⟨-, rfl⟩ := remove_eq_some_iff.1 hremove
      rw [← heffective]
      exact ⟨rfl, rfl⟩
    | none =>
      rw [hremove] at heffective
      rw [← heffective]
      refine ⟨(List.filter_eq_self.2 fun r hr => ?_).symm, rfl⟩
      -- Nothing is registered for the selector.
      rw [decide_eq_true_eq]
      intro hselector
      have hsome := h.mem_selectors_iff.1 (List.mem_map.2 ⟨r, hr, hselector⟩)
      rw [Op.isEffective, hsome] at heffective
      cases heffective
  obtain ⟨hrules, hversion⟩ := hafter
  constructor
  case rules =>
    intro r
    have hregistered : (Op.remove given).registered? r.selector = none := rfl
    rw [hrules, List.mem_filter, current_concat, Op.ends, hregistered, Option.none_or, h.rules]
    by_cases hselector : Text.trimmed given = r.selector
    · simp [hselector]
    · simp [hselector, Ne.symm hselector]
  case order =>
    rw [hrules]
    refine h.order_concat _ (List.filter_sublist.map _) ?_
    intro s hs
    obtain ⟨r, hr, rfl⟩ := List.mem_map.1 hs
    have hne : r.selector ≠ Text.trimmed given := of_decide_eq_true (List.mem_filter.1 hr).2
    exact decide_eq_false (Ne.symm hne)
  case version => rw [hversion, changes_concat, h.version]

theorem clear (h : Follows ops o) : Follows (ops ++ [.clear]) o.clear where
  rules r := by
    rw [current_concat, Op.ends, if_pos rfl]
    exact iff_of_false List.not_mem_nil (fun hr => by cases hr)
  order := List.Pairwise.nil
  version := by
    rw [changes_concat, ← h.version]
    rfl

end Follows

theorem isSome_add (o : Overlay) (given : Rule) :
    (o.add given).isSome = (Op.add given).isEffective ops := by
  rw [Bool.eq_iff_iff, Op.isEffective, Option.isSome_iff_exists]
  simp [add_eq_some_iff]

/-- To generate leaves the rules and their version. -/
theorem generate_frame (o : Overlay) (c : Compiler) (template : String) (context : TokenSet) :
    (o.generate c template context).2.1.rules = o.rules ∧
      (o.generate c template context).2.1.version = o.version := by
  unfold generate
  dsimp only
  split <;> exact ⟨rfl, rfl⟩

/-! ## Runs -/

namespace Trace

theorem overlay_changed (t : Trace) (o : Option Overlay) :
    (t.changed o).overlay = o.getD t.overlay := by
  cases o <;> rfl

/-- **A step more in the history is a step of the overlay.** -/
theorem follows_step {t : Trace} (h : Follows ops t.overlay) (op : Op) :
    Follows (ops ++ [op]) (t.step op).overlay := by
  cases op with
  | add given =>
    rw [step, overlay_changed]
    exact h.add given
  | remove given =>
    rw [step, overlay_changed]
    exact h.remove given
  | clear => exact h.clear
  | settings settings => exact h.idle rfl rfl (fun _ => rfl) (fun _ => rfl) rfl
  | tokens set => exact h.idle rfl rfl (fun _ => rfl) (fun _ => rfl) rfl
  | generate r =>
    obtain ⟨hrules, hversion⟩ :=
      t.overlay.generate_frame t.compiler.compiler r.template r.context
    exact h.idle hrules hversion (fun _ => rfl) (fun _ => rfl) rfl

theorem run_concat (t : Trace) (ops : List Op) (op : Op) :
    t.run (ops ++ [op]) = (t.run ops).step op := by
  rw [run, List.foldl_append]
  rfl

theorem follows_run (overlay : OverlaySettings) (settings : CompilerSettings)
    (functions : Functions) (ops : List Op) :
    Follows ops ((start overlay settings functions).run ops).overlay := by
  induction ops using List.reverseRecOn with
  | nil => exact ⟨fun _ => ⟨fun h => (by cases h), fun h => (by cases h)⟩, List.Pairwise.nil, rfl⟩
  | append_singleton ops op ih =>
    rw [run_concat]
    exact follows_step ih op

end Trace

/-- What is registered is trimmed and has names for everything. -/
theorem Follows.rule {o : Overlay} (h : Follows ops o) {rule : Rule} (hrule : rule ∈ o.rules) :
    rule.selector ≠ "" ∧ Text.trimmed rule.selector = rule.selector ∧
      ∀ name ∈ Table.names rule.properties, Text.allBlank name = false := by
  obtain ⟨-, hnamed, given, hgiven⟩ := of_current ((h.rules rule).1 hrule)
  rw [Rule.isNamed, Bool.and_eq_true, List.all_eq_true] at hnamed
  refine ⟨?_, ?_, fun name hname => ?_⟩
  · intro hempty
    rw [hempty] at hnamed
    cases hnamed.1
  · rw [hgiven]
    exact Text.trimmed_trimmed given.selector
  · simpa using hnamed.2 name hname

/-- **The rules of an overlay tell its history.** After every run their selectors are distinct,
    filled and trimmed, and no property lacks a name; each rule is the last one accepted for its
    selector, and they stand in the order in which the selectors came. The version counts what
    changed the rules; what is refused changes nothing at all. -/
theorem registry_run (overlay : OverlaySettings) (settings : CompilerSettings)
    (functions : Functions) (ops : List Op) :
    let run := (Trace.start overlay settings functions).run
    let o := (run ops).overlay
    (o.rules.map Rule.selector).Nodup ∧
      (∀ rule ∈ o.rules, rule.selector ≠ "" ∧ Text.trimmed rule.selector = rule.selector ∧
        ∀ name ∈ Table.names rule.properties, Text.allBlank name = false) ∧
      (o.rules.map Rule.selector).Pairwise (fun a b => firstAt a ops < firstAt b ops) ∧
      (∀ rule, rule ∈ o.rules ↔ current rule.selector ops = some rule) ∧
      o.version = changes ops ∧
      (∀ given, (o.add given).isSome = (Op.add given).isEffective ops ∧
        ((Op.add given).isEffective ops = false → run (ops ++ [.add given]) = run ops)) ∧
      ∀ given, (o.remove given).isSome = (Op.remove given).isEffective ops ∧
        ((Op.remove given).isEffective ops = false → run (ops ++ [.remove given]) = run ops) := by
  have h := Trace.follows_run overlay settings functions ops
  refine ⟨h.nodup, fun rule => h.rule, h.order, h.rules, h.version, fun given => ?_,
    fun given => ?_⟩
  · refine ⟨isSome_add _ given, fun heffective => ?_⟩
    rw [← isSome_add, Option.isSome_eq_false_iff, Option.isNone_iff_eq_none] at heffective
    rw [Trace.run_concat, Trace.step, heffective]
    rfl
  · refine ⟨h.isSome_remove given, fun heffective => ?_⟩
    rw [← h.isSome_remove, Option.isSome_eq_false_iff, Option.isNone_iff_eq_none] at heffective
    rw [Trace.run_concat, Trace.step, heffective]
    rfl

/-- A history in which a rule is registered again, another one is removed and comes back, and one is
    refused. -/
def panelHistory : List Op :=
  [.add ⟨".a", [], [], none⟩, .add ⟨".b", [], [], none⟩, .add ⟨".c", [], [], none⟩,
    .remove " .a", .add ⟨"", [], [], none⟩, .add ⟨" .b ", [], [], some "print"⟩,
    .add ⟨".a", [], [], none⟩]

/-- The rule that was registered again keeps its place, the one that was removed comes last. -/
example :
    let o := ((Trace.start ⟨true, true⟩ ⟨true, true, true⟩ []).run panelHistory).overlay
    o.rules.map (fun r => (r.selector, r.mediaQuery)) =
        [(".b", some "print"), (".c", none), (".a", none)] ∧
      o.version = 6 := by
  decide +kernel

/-- After that history a property without a name is refused, and so is the removal of what is not
    there. -/
theorem registry_run_refused :
    let run := (Trace.start ⟨true, true⟩ ⟨true, true, true⟩ []).run
    (run panelHistory).overlay.version = changes panelHistory ∧
      (⟨".b", [], [], some "print"⟩ ∈ (run panelHistory).overlay.rules ↔
        current ".b" panelHistory = some ⟨".b", [], [], some "print"⟩) ∧
      run (panelHistory ++ [.add ⟨".d", [(" ", "red")], [], none⟩]) = run panelHistory ∧
      run (panelHistory ++ [.remove ".d"]) = run panelHistory := by
  obtain ⟨-, -, -, hrules, hversion, hadd, hremove⟩ :=
    registry_run ⟨true, true⟩ ⟨true, true, true⟩ [] panelHistory
  exact ⟨hversion, hrules ⟨".b", [], [], some "print"⟩, (hadd _).2 (by decide +kernel),
    (hremove _).2 (by decide +kernel)⟩

end Theming.Style.Overlay
