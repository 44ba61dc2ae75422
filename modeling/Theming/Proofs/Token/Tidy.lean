import Theming.Proofs.Token.Apart
import Theming.Proofs.Token.Lookups

set_option autoImplicit false

/-! # Tidy texts

Whether evaluating a text early loses something depends on what is in scope then. A text is tidy if
the scope of the first pass is enough to tell that nothing is lost in any pass: plain text stands
between references and calls (`SetApart`), references stand for no maps, and the arguments of a call
refer to nothing that has to be resolved first. The main results are `faithful_of_isTidy` and
`isTidy_again`. -/

namespace Theming

/-- Whether a value holds nothing to evaluate. -/
def Value.IsInert (functions : Functions) (v : Value) : Prop :=
  v.isMap = false ∧ Segment.isDynamic (v.segments functions) = false ∧
    Segment.SetApart functions.contains (v.segments functions)

/-- Whether a name refers to a value that holds nothing to evaluate. -/
def Scope.IsSettled (scope : Scope) (functions : Functions) (name : String) : Prop :=
  ∃ v, scope name = some v ∧ v.IsInert functions

namespace Segment

mutual

/-- Whether a segment can be evaluated in any order: a reference stands for no map, and what a call
    yields is known from the start. -/
def IsTidy (scope : Scope) (functions : Functions) : Segment → Prop
  | .text _ => True
  | .reference name _ fallback =>
    match scope name with
    | some v => v.isMap = false
    | none => FallbackIsTidy scope functions fallback
  | .call name args raw =>
    (∀ n ∈ namesOfArgs args, scope.IsSettled functions n) ∧
      ((Segment.call name args raw).eval scope functions .all).outcome.value.IsInert functions
termination_by structural s => s

/-- The same for the fallback of a reference that is not found. -/
def FallbackIsTidy (scope : Scope) (functions : Functions) : Option (List Segment) → Prop
  | none => True
  | some segments => AllTidy scope functions segments ∧ SetApart functions.contains segments
termination_by structural f => f

/-- The same for every segment of a list. -/
def AllTidy (scope : Scope) (functions : Functions) : List Segment → Prop
  | [] => True
  | s :: rest => s.IsTidy scope functions ∧ AllTidy scope functions rest
termination_by structural segments => segments

end

end Segment

/-- Whether a value is read as segments that are tidy and set apart. -/
def Value.IsTidy (scope : Scope) (functions : Functions) (v : Value) : Prop :=
  Segment.AllTidy scope functions (v.segments functions) ∧
    Segment.SetApart functions.contains (v.segments functions)

instance (functions : Functions) : DecidablePred (Value.IsInert functions) :=
  fun _ => inferInstanceAs (Decidable (_ = _ ∧ _ = _ ∧ _))

instance (scope : Scope) (functions : Functions) : DecidablePred (scope.IsSettled functions) :=
  fun name =>
    match h : scope name with
    | none => isFalse (by rintro ⟨v, hv, _⟩; rw [h] at hv; cases hv)
    | some v =>
      decidable_of_iff (v.IsInert functions) ⟨fun hv => ⟨v, h, hv⟩, by
        rintro ⟨w, hw, hinert⟩
        rw [h] at hw
        cases hw
        exact hinert⟩

namespace Segment

mutual

/-- Decides whether a segment is tidy. -/
def decIsTidy (scope : Scope) (functions : Functions) :
    (s : Segment) → Decidable (s.IsTidy scope functions)
  | .text _ => isTrue trivial
  | .reference name raw fallback =>
    match h : scope name with
    | some v => decidable_of_iff (v.isMap = false) (by simp only [IsTidy, h])
    | none =>
      match decFallbackIsTidy scope functions fallback with
      | isTrue hf => isTrue (by simpa only [IsTidy, h] using hf)
      | isFalse hf => isFalse (by simpa only [IsTidy, h] using hf)
  | .call _ args _ =>
    inferInstanceAs (Decidable ((∀ n ∈ namesOfArgs args, scope.IsSettled functions n) ∧
      Value.IsInert functions _))
termination_by structural s => s

/-- Decides the same for a fallback. -/
def decFallbackIsTidy (scope : Scope) (functions : Functions) :
    (fallback : Option (List Segment)) → Decidable (FallbackIsTidy scope functions fallback)
  | none => isTrue trivial
  | some segments =>
    have := decAllTidy scope functions segments
    inferInstanceAs (Decidable (AllTidy scope functions segments ∧
      SetApart functions.contains segments))
termination_by structural f => f

/-- Decides the same for a list. -/
def decAllTidy (scope : Scope) (functions : Functions) :
    (segments : List Segment) → Decidable (AllTidy scope functions segments)
  | [] => isTrue trivial
  | s :: rest =>
    have := decIsTidy scope functions s
    have := decAllTidy scope functions rest
    inferInstanceAs (Decidable (s.IsTidy scope functions ∧ AllTidy scope functions rest))
termination_by structural segments => segments

end

end Segment

instance (scope : Scope) (functions : Functions) : DecidablePred (Value.IsTidy scope functions) :=
  fun v =>
    have := Segment.decAllTidy scope functions (v.segments functions)
    inferInstanceAs (Decidable (_ ∧ _))

namespace Segment

variable {functions : Functions}

theorem allTidy_of_not_dynamic {scope : Scope} {segments : List Segment}
    (h : isDynamic segments = false) : AllTidy scope functions segments := by
  induction segments with
  | nil => trivial
  | cons s rest ih =>
    rw [isDynamic, List.any_cons, Bool.or_eq_false_iff] at h
    cases s with
    | text t => exact ⟨trivial, ih h.2⟩
    | reference name raw fallback => cases h.1
    | call name args raw => cases h.1

end Segment

/-! ## Inert values -/

namespace Value

variable {functions : Functions} {v : Value}

theorem rawOf_segments (v : Value) : Segment.rawOf (v.segments functions) = v.display := by
  cases v with
  | str s => exact Segment.rawOf_parse functions.contains s
  | bool b => exact Segment.rawOf_singleton _
  | int n => exact Segment.rawOf_singleton _
  | float x => exact Segment.rawOf_singleton _
  | map entries => exact Segment.rawOf_singleton _

theorem allSpelled_segments (v : Value) :
    Segment.AllSpelled functions.contains (v.segments functions) := by
  cases v with
  | str s => exact Segment.allSpelled_parse _ s
  | bool b => exact ⟨trivial, trivial⟩
  | int n => exact ⟨trivial, trivial⟩
  | float x => exact ⟨trivial, trivial⟩
  | map entries => exact ⟨trivial, trivial⟩

/-- Evaluating an inert value changes nothing. -/
theorem IsInert.again (h : v.IsInert functions) (scope : Scope) : v.again functions scope = v := by
  cases v with
  | str s =>
    have hdynamic : ¬ Segment.isDynamic (Segment.parse functions.contains s) = true :=
      Bool.eq_false_iff.1 h.2.1
    simp only [Value.again, evaluate, if_neg hdynamic]
  | bool b => rfl
  | int n => rfl
  | float x => rfl
  | map entries => rfl

theorem IsInert.isTidy (h : v.IsInert functions) (scope : Scope) : v.IsTidy scope functions :=
  ⟨Segment.allTidy_of_not_dynamic h.2.1, h.2.2⟩

end Value

/-! ## Tidy texts lose nothing -/

/-- Whether a scope has the same names for values and maps as the first one, and tidy values for
    them; inert values are the same. -/
structure Scope.Keeps (functions : Functions) (first now : Scope) : Prop where
  missing : ∀ name, first name = none → now name = none
  found : ∀ name v, first name = some v → v.isMap = false →
    ∃ w, now name = some w ∧ w.isMap = false ∧ w.IsTidy first functions
  inert : ∀ name v, first name = some v → v.IsInert functions → now name = some v

namespace Segment

variable {functions : Functions} {first before after : Scope}

/-- Whether a list is tidy, set apart and spelled as what it is. -/
structure Sound (first : Scope) (functions : Functions) (segments : List Segment) : Prop where
  tidy : AllTidy first functions segments
  apart : SetApart functions.contains segments
  spelled : AllSpelled functions.contains segments

theorem sound_segments {v : Value} (h : v.IsTidy first functions) :
    Sound first functions (v.segments functions) :=
  ⟨h.1, h.2, v.allSpelled_segments⟩

theorem sound_text {t : String} (h : IsPlain functions.contains t) :
    Sound first functions [.text t] :=
  ⟨⟨trivial, trivial⟩, ⟨h, Or.inl rfl, trivial⟩, trivial, trivial⟩

theorem allTidy_iff {segments : List Segment} :
    AllTidy first functions segments ↔ ∀ s ∈ segments, s.IsTidy first functions := by
  induction segments with
  | nil => simp [AllTidy]
  | cons s rest ih => rw [AllTidy, ih, List.forall_mem_cons]

theorem isTidy_of_isText {s : Segment} (h : s.isText = true) : s.IsTidy first functions := by
  cases s with
  | text t => trivial
  | reference name raw fallback => cases h
  | call name args raw => cases h

theorem Sound.append {a b : List Segment} (ha : Sound first functions a)
    (hb : Sound first functions b)
    (hapart : SetApart functions.contains (Segment.append a b)) :
    Sound first functions (Segment.append a b) := by
  refine ⟨allTidy_iff.2 ?_, hapart, allSpelled_append ha.spelled hb.spelled⟩
  intro s hs
  rcases mem_append hs with hmem | hmem | htext
  · exact allTidy_iff.1 ha.tidy s hmem
  · exact allTidy_iff.1 hb.tidy s hmem
  · exact isTidy_of_isText htext

/-- A call that is tidy is the same from the start on. -/
theorem eval_of_settled (hbefore : first.Keeps functions before) {name raw : String}
    {args : List (List Segment)}
    (hargs : ∀ n ∈ namesOfArgs args, first.IsSettled functions n) :
    (Segment.call name args raw).eval before functions .all =
      (Segment.call name args raw).eval first functions .all := by
  apply eval_congr
  intro n hn
  obtain ⟨v, hv, hinert⟩ := hargs n hn
  rw [hv]
  exact hbefore.inert n v hv hinert

theorem followsApart_spliceList {segments : List Segment}
    (h : SetApart functions.contains segments) (hfollows : FollowsApart segments) :
    FollowsApart (spliceList before functions segments) := by
  cases segments with
  | nil => trivial
  | cons s rest =>
    cases s with
    | text t =>
      have hpush : FollowsApart (pushText t (spliceList before functions rest)) := by
        unfold pushText
        split
        · exact startsApart_append h.1.1 hfollows
        · exact hfollows
      exact hpush
    | reference name raw fallback => exact hfollows.elim
    | call name args raw => exact hfollows.elim

mutual

/-- What stands in the place of a reference or call is sound. -/
theorem sound_splice (hbefore : first.Keeps functions before) : ∀ s : Segment,
    s.isText = false → s.IsTidy first functions → s.IsSpelled functions.contains →
    Sound first functions (s.splice before functions)
  | .text t, htext, _, _ => by cases htext
  | .reference name raw fallback, _, htidy, hspelled => by
    rw [IsTidy] at htidy
    rw [splice]
    cases hfirst : first name with
    | some v =>
      rw [hfirst] at htidy
      obtain ⟨w, hw, _, hwtidy⟩ := hbefore.found name v hfirst htidy
      rw [hw]
      exact sound_segments hwtidy
    | none =>
      rw [hfirst] at htidy
      rw [hbefore.missing name hfirst]
      exact sound_spliceFallback hbefore name raw hfirst fallback htidy hspelled
  | .call name args raw, _, htidy, _ => by
    rw [splice, eval_of_settled hbefore htidy.1]
    exact sound_segments (htidy.2.isTidy first)
termination_by structural s => s

theorem sound_spliceFallback (hbefore : first.Keeps functions before) (name raw : String)
    (hfirst : first name = none) : ∀ fallback : Option (List Segment),
      FallbackIsTidy first functions fallback →
      (Segment.reference name raw fallback).IsSpelled functions.contains →
      Sound first functions (spliceFallback before functions name raw fallback)
  | none, _, hspelled => by
    have htidy : (Segment.reference name raw none).IsTidy first functions := by
      rw [IsTidy, hfirst]
      trivial
    exact ⟨⟨htidy, trivial⟩, ⟨trivial, trivial⟩, hspelled, trivial⟩
  | some segments, htidy, hspelled => sound_spliceList hbefore segments htidy.1 htidy.2 hspelled.2
termination_by structural fallback => fallback

theorem sound_spliceList (hbefore : first.Keeps functions before) : ∀ segments : List Segment,
    AllTidy first functions segments → SetApart functions.contains segments →
    AllSpelled functions.contains segments →
    Sound first functions (spliceList before functions segments)
  | [], _, _, _ => ⟨trivial, trivial, trivial⟩
  | s :: rest, htidy, hapart, hspelled => by
    have hrest := sound_spliceList hbefore rest htidy.2 hapart.tail hspelled.2
    rw [spliceList]
    cases htext : s.isText with
    | true =>
      cases s with
      | text t =>
        -- Plain text may meet the text of a value behind it, since it ends apart.
        obtain ⟨hplain, hseam, _⟩ := hapart
        rw [splice]
        refine (sound_text hplain).append hrest (setApart_pushText hplain hrest.apart ?_)
        rcases hseam with rfl | ⟨hends, _⟩
        · exact Or.inr trivial
        · exact Or.inl hends
      | reference name raw fallback => cases htext
      | call name args raw => cases htext
    | false =>
      -- Behind a reference comes a text that starts apart, whatever is put in its place.
      have hfirst := sound_splice hbefore s htext htidy.1 hspelled.1
      exact hfirst.append hrest (setApart_append hfirst.apart hrest.apart
        (followsApart_spliceList hapart.tail (hapart.followsApart htext)))
termination_by structural segments => segments

end

/-! ## What is tidy is read back -/

mutual

/-- A segment is displayed as what stands in its place. -/
theorem rawOf_splice : ∀ s : Segment,
    rawOf (s.splice before functions) = (s.eval before functions .all).outcome.value.display
  | .text t => rawOf_singleton (.text t)
  | .reference name raw fallback => by
    rw [splice, eval]
    cases before name with
    | some v => exact v.rawOf_segments
    | none => exact rawOf_spliceFallback name raw fallback
  | .call name args raw => by
    rw [splice]
    exact Value.rawOf_segments _
termination_by structural s => s

theorem rawOf_spliceFallback (name raw : String) : ∀ fallback : Option (List Segment),
    rawOf (spliceFallback before functions name raw fallback) =
      (evalFallback before functions .all raw fallback).value.display
  | none => rawOf_singleton (.reference name raw none)
  | some segments => by
    rw [spliceFallback, rawOf_spliceList segments, evalFallback, display_combine]
termination_by structural fallback => fallback

theorem rawOf_spliceList : ∀ segments : List Segment,
    rawOf (spliceList before functions segments) = textOf before functions segments
  | [] => rfl
  | s :: rest => by
    rw [spliceList, rawOf_append, rawOf_splice s, rawOf_spliceList rest, ← textOf_cons]
termination_by structural segments => segments

end

theorem any_isText_pushText (t : String) (segments : List Segment) :
    (pushText t segments).any isText = true := by
  unfold pushText
  split <;> rfl

theorem any_isText_append {a b : List Segment} (h : b.any isText = true) :
    (append a b).any isText = true := by
  induction a with
  | nil => exact h
  | cons s rest ih =>
    cases s with
    | text t => exact any_isText_pushText t _
    | reference name raw fallback => exact ih
    | call name args raw => exact ih

/-- Text stays text. -/
theorem any_isText_spliceList {segments : List Segment} (h : segments.any isText = true) :
    (spliceList before functions segments).any isText = true := by
  induction segments with
  | nil => cases h
  | cons s rest ih =>
    rw [spliceList]
    cases htext : s.isText with
    | true =>
      cases s with
      | text t => exact any_isText_pushText t _
      | reference name raw fallback => cases htext
      | call name args raw => cases htext
    | false =>
      rw [List.any_cons, htext, Bool.false_or] at h
      exact any_isText_append (ih h)

theorem not_isLone_of_any {segments : List Segment} (h : segments.any isText = true) :
    ¬ IsLone segments := by
  rintro ⟨s, rfl, hs⟩
  rw [List.any_cons, hs] at h
  cases h

/-- A list that is set apart is empty, a single reference or call, or holds text. -/
theorem SetApart.any_isText {segments : List Segment}
    (h : SetApart functions.contains segments) (hlone : ¬ IsLone segments) :
    segments = [] ∨ segments.any isText = true := by
  cases segments with
  | nil => exact Or.inl rfl
  | cons s rest =>
    right
    cases htext : s.isText with
    | true => rw [List.any_cons, htext, Bool.true_or]
    | false =>
      cases rest with
      | nil => exact absurd ⟨s, rfl, htext⟩ hlone
      | cons s' rest =>
        have hfollows := h.followsApart htext
        cases s' with
        | text t => simp [isText]
        | reference name raw fallback => exact hfollows.elim
        | call name args raw => exact hfollows.elim

/-- **Tidy lists are read back.** -/
theorem Sound.readsBack (hbefore : first.Keeps functions before) {segments : List Segment}
    (h : Sound first functions segments) : ReadsBack before functions segments := by
  intro hlone
  have hsound := sound_spliceList hbefore segments h.tidy h.apart h.spelled
  refine ⟨?_, ?_⟩
  · have hempty : Lexeme.StartsApart "".toList := Lexeme.startsApart_nil
    have hread := parse_rawOf hsound.apart hsound.spelled hempty
    rw [rawOf_spliceList, String.append_empty, parse_empty,
      append_nil_of_setApart hsound.apart] at hread
    exact hread
  · rcases h.apart.any_isText hlone with rfl | hany
    · exact not_isLone_nil
    · exact not_isLone_of_any (any_isText_spliceList hany)

/-- What a tidy list is put together to is sound again. -/
theorem sound_of_not_lone (hbefore : first.Keeps functions before) {segments : List Segment}
    (h : Sound first functions segments) (hlone : ¬ IsLone segments) :
    Sound first functions
      ((Piece.combine (evalList before functions .all segments)).value.segments functions) := by
  rw [combine_of_not_lone hlone, Value.segments, (h.readsBack hbefore hlone).1]
  exact sound_spliceList hbefore segments h.tidy h.apart h.spelled

mutual

/-- Nothing of a tidy segment is lost. -/
theorem holds_of_isTidy (hbefore : first.Keeps functions before)
    (hafter : first.Keeps functions after) : ∀ s : Segment, s.IsTidy first functions →
    s.IsSpelled functions.contains → s.Holds before after functions
  | .text t, _, _ => trivial
  | .reference name raw fallback, htidy, hspelled => by
    rw [IsTidy] at htidy
    rw [Holds]
    cases hfirst : first name with
    | some v =>
      rw [hfirst] at htidy
      obtain ⟨w, hw, hmap, _⟩ := hbefore.found name v hfirst htidy
      rw [hw]
      exact hmap
    | none =>
      rw [hfirst] at htidy
      rw [hbefore.missing name hfirst]
      exact fallbackHolds_of_isTidy hbefore hafter fallback htidy hspelled.2
  | .call name args raw, htidy, _ => by
    -- Its arguments were settled from the start, so the call is the same at any time.
    have hinert := htidy.2
    rw [Holds, CallHolds, eval_of_settled hbefore htidy.1, eval_of_settled hafter htidy.1]
    exact ⟨hinert.1, openNamesOf_of_not_dynamic hinert.2.1, hinert.again after⟩
termination_by structural s => s

theorem fallbackHolds_of_isTidy (hbefore : first.Keeps functions before)
    (hafter : first.Keeps functions after) : ∀ fallback : Option (List Segment),
    FallbackIsTidy first functions fallback → FallbackIsSpelled functions.contains fallback →
    FallbackHolds before after functions fallback
  | none, _, _ => trivial
  | some segments, htidy, hspelled =>
    ⟨allHold_of_allTidy hbefore hafter segments htidy.1 hspelled,
      Sound.readsBack hbefore ⟨htidy.1, htidy.2, hspelled⟩⟩
termination_by structural fallback => fallback

theorem allHold_of_allTidy (hbefore : first.Keeps functions before)
    (hafter : first.Keeps functions after) : ∀ segments : List Segment,
    AllTidy first functions segments → AllSpelled functions.contains segments →
    AllHold before after functions segments
  | [], _, _ => trivial
  | s :: rest, htidy, hspelled =>
    ⟨holds_of_isTidy hbefore hafter s htidy.1 hspelled.1,
      allHold_of_allTidy hbefore hafter rest htidy.2 hspelled.2⟩
termination_by structural segments => segments

end

mutual

/-- The outcome of a tidy reference or call is read as segments that are sound again. -/
theorem sound_eval (hbefore : first.Keeps functions before) : ∀ s : Segment, s.isText = false →
    s.IsTidy first functions → s.IsSpelled functions.contains →
    Sound first functions ((s.eval before functions .all).outcome.value.segments functions)
  | .text t, htext, _, _ => by cases htext
  | .reference name raw fallback, _, htidy, hspelled => by
    rw [IsTidy] at htidy
    rw [eval]
    cases hfirst : first name with
    | some v =>
      rw [hfirst] at htidy
      obtain ⟨w, hw, _, hwtidy⟩ := hbefore.found name v hfirst htidy
      rw [hw]
      exact sound_segments hwtidy
    | none =>
      rw [hfirst] at htidy
      rw [hbefore.missing name hfirst]
      exact sound_evalFallback hbefore name raw hfirst fallback htidy hspelled
  | .call name args raw, _, htidy, _ => by
    rw [eval_of_settled hbefore htidy.1]
    exact sound_segments (htidy.2.isTidy first)
termination_by structural s => s

theorem sound_evalFallback (hbefore : first.Keeps functions before) (name raw : String)
    (hfirst : first name = none) : ∀ fallback : Option (List Segment),
      FallbackIsTidy first functions fallback →
      (Segment.reference name raw fallback).IsSpelled functions.contains →
      Sound first functions
        ((evalFallback before functions .all raw fallback).value.segments functions)
  | none, _, hspelled => by
    have hread : parse functions.contains raw = [.reference name raw none] := hspelled.1.parse_raw
    rw [evalFallback, Value.segments, hread]
    exact sound_spliceFallback hbefore name raw hfirst none trivial hspelled
  | some segments, htidy, hspelled =>
    sound_combine hbefore segments ⟨htidy.1, htidy.2, hspelled.2⟩
termination_by structural fallback => fallback

/-- The value of a tidy list is read as segments that are sound again. -/
theorem sound_combine (hbefore : first.Keeps functions before) : ∀ segments : List Segment,
    Sound first functions segments →
    Sound first functions
      ((Piece.combine (evalList before functions .all segments)).value.segments functions)
  | [], h => sound_of_not_lone hbefore h not_isLone_nil
  | [s], h => by
    cases htext : s.isText with
    | false => exact sound_eval hbefore s htext h.tidy.1 h.spelled.1
    | true => exact sound_of_not_lone hbefore h (not_isLone_of_isText htext)
  | _ :: _ :: _, h => sound_of_not_lone hbefore h not_isLone_of_two
termination_by structural segments => segments

end

end Segment

/-! ## Tidy texts -/

section Texts

variable {functions : Functions} {first before after : Scope} {text : String}

/-- **A tidy text loses nothing**, whatever has been resolved before. -/
theorem faithful_of_isTidy (hbefore : first.Keeps functions before)
    (hafter : first.Keeps functions after) (h : (Value.str text).IsTidy first functions) :
    Faithful functions before after text :=
  ⟨Segment.allHold_of_allTidy hbefore hafter _ h.1 (Segment.allSpelled_parse _ text),
    (Segment.sound_segments h).readsBack hbefore⟩

/-- A tidy value stays tidy when it is evaluated. -/
theorem isTidy_again (hbefore : first.Keeps functions before) {v : Value}
    (h : v.IsTidy first functions) : (v.again functions before).IsTidy first functions := by
  cases v with
  | str text =>
    simp only [Value.again, evaluate]
    split
    · have hsound := Segment.sound_combine hbefore _ (Segment.sound_segments h)
      exact ⟨hsound.tidy, hsound.apart⟩
    · exact h
  | bool b => exact h
  | int n => exact h
  | float x => exact h
  | map entries => exact h

end Texts

end Theming
