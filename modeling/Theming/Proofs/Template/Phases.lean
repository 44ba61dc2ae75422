import Theming.Proofs.Token.Arguments
import Theming.Template.Loader

set_option autoImplicit false

/-! # Variables first, calls afterwards

A loader evaluates in two phases with a text between them: references are replaced, and in the text
that this yields the calls are made. So a value that spells a call is called, and a value that is
not read again from its text is another one in the second phase. Otherwise the result is that of a
single evaluation.

`Segment.between` tells what the text between the phases should be read as, and `Segment.Lasts` what
else must not get lost on the way. The value of an argument is what matters to a function, so it
must be read again from its text (`LiteralLasts`), or be put together again in the second phase
(`JoinedLasts`); outside arguments only texts matter. The main result is
`resolve_eq_evaluateText`. -/

namespace Theming

namespace Segment

open Text (trimmed)

section

variable (scope : Scope) (functions : Functions)

/-! ## The text between the phases -/

/-- The text of a segment when references are replaced and no call is made. -/
def written (s : Segment) : String := (s.eval scope functions .references).outcome.value.display

mutual

/-- What stands in the place of a segment in the text between the phases. -/
def between : Segment → List Segment
  | .text t => [.text t]
  | .reference name raw fallback =>
    match scope name with
    | some v => parse functions.contains v.display
    | none => betweenFallback name raw fallback
  | .call name args raw => parse functions.contains (written scope functions (.call name args raw))
termination_by structural s => s

/-- What stands in the place of a reference that is not found. -/
def betweenFallback (name raw : String) : Option (List Segment) → List Segment
  | none => [.reference name raw none]
  | some segments => betweenList segments
termination_by structural f => f

/-- What stands in the place of a list of segments. -/
def betweenList : List Segment → List Segment
  | [] => []
  | s :: rest => append s.between (betweenList rest)
termination_by structural segments => segments

end

/-! ## Calls in arguments -/

mutual

/-- Whether evaluation comes to a call. -/
def holdsCall : Segment → Bool
  | .text _ => false
  | .reference name _ fallback =>
    match scope name with
    | some _ => false
    | none => fallbackHoldsCall fallback
  | .call _ _ _ => true
termination_by structural s => s

/-- The same for the fallback of a reference that is not found. -/
def fallbackHoldsCall : Option (List Segment) → Bool
  | none => false
  | some segments => anyHoldsCall segments
termination_by structural f => f

/-- The same for one of several segments. -/
def anyHoldsCall : List Segment → Bool
  | [] => false
  | s :: rest => s.holdsCall || anyHoldsCall rest
termination_by structural segments => segments

end

mutual

/-- The call that a segment takes its value from, whatever the type of the value. -/
def soleCall? : Segment → Option Segment
  | .text _ => none
  | .reference name _ fallback =>
    match scope name with
    | some _ => none
    | none => fallbackSoleCall? fallback
  | .call name args raw => some (.call name args raw)
termination_by structural s => s

/-- The same for the fallback of a reference that is not found. -/
def fallbackSoleCall? : Option (List Segment) → Option Segment
  | none => none
  | some segments => listSoleCall? segments
termination_by structural f => f

/-- The same for a list, which takes its value from its segment if there is only one. -/
def listSoleCall? : List Segment → Option Segment
  | [] => none
  | s :: rest => if rest.isEmpty then s.soleCall? else none
termination_by structural segments => segments

end

/-! ## What lasts -/

/-- Whether the value that an argument is passed as is read again from its text. -/
def LiteralLasts (arg : List Segment) : Prop :=
  let value := passed scope functions .references arg
  passed scope functions .functions (parse functions.contains value.display) = value

/-- Whether the text of an argument is read as what it was put together from, unless it is that of
    a call alone. -/
def JoinedLasts (arg : List Segment) : Prop :=
  listSoleCall? scope (trim arg) = none →
    trim (parse functions.contains (passed scope functions .references arg).display) =
        trim (betweenList scope functions arg) ∧
      ¬ IsLone (trim (betweenList scope functions arg))

/-- Whether a call is read again from its text: as a call of the same function with the arguments
    that were written. It must not be made only because a reference was not found any more, and if
    it is not made, its arguments must not become as they were spelled at first. -/
def CallLasts (name : String) (args : List (List Segment)) (raw : String) : Prop :=
  let text := written scope functions (.call name args raw)
  let given := args.map (fun arg => trimmed (rawOf arg))
  let first := args.map (passed scope functions .references)
  let values := args.map (passed scope functions .all)
  (∃ args', parse functions.contains text = [.call name args' text] ∧
      args'.map trim = first.map (fun v => trim (parse functions.contains v.display))) ∧
    ((evalArgs scope functions .all args).any Outcome.unresolved = true →
      functions.call? name values = none) ∧
    (functions.call? name values = none →
      values.map Value.display = given → first.map Value.display = given)

mutual

/-- Whether a segment is the same when calls are made in the text between the phases. -/
def Lasts : Segment → Prop
  | .text _ => True
  | .reference name _ fallback =>
    match scope name with
    | some v => evaluateText v.display scope functions .functions = v.display
    | none => FallbackLasts fallback
  | .call name args raw => ArgsLast args ∧ CallLasts scope functions name args raw
termination_by structural s => s

/-- The same for the fallback of a reference that is not found. -/
def FallbackLasts : Option (List Segment) → Prop
  | none => True
  | some segments => AllLast segments
termination_by structural f => f

/-- The same for every segment of a list. -/
def AllLast : List Segment → Prop
  | [] => True
  | s :: rest => s.Lasts ∧ AllLast rest
termination_by structural segments => segments

/-- The same for the arguments of a call. -/
def ArgsLast : List (List Segment) → Prop
  | [] => True
  | arg :: rest =>
    (if anyHoldsCall scope (trim arg) = true then AllLast arg ∧ JoinedLasts scope functions arg
      else LiteralLasts scope functions arg) ∧ ArgsLast rest
termination_by structural args => args

end

end

/-! ## Deciding what lasts -/

section

variable (scope : Scope) (functions : Functions)

instance (arg : List Segment) : Decidable (LiteralLasts scope functions arg) :=
  inferInstanceAs (Decidable (_ = _))

instance (arg : List Segment) : Decidable (JoinedLasts scope functions arg) :=
  inferInstanceAs (Decidable (_ = _ → _ = _ ∧ ¬ IsLone _))

/-- Decides whether segments are a call of a function with given arguments. -/
def decIsCall (name text : String) (given : List (List Segment)) : (segments : List Segment) →
    Decidable (∃ args, segments = [.call name args text] ∧ args.map trim = given)
  | [.call name' args text'] =>
    decidable_of_iff (name' = name ∧ text' = text ∧ args.map trim = given) (by simp; tauto)
  | [] | [.text _] | [.reference _ _ _] | _ :: _ :: _ => isFalse (by simp)

instance (name : String) (args : List (List Segment)) (raw : String) :
    Decidable (CallLasts scope functions name args raw) :=
  let text := written scope functions (.call name args raw)
  let first := args.map (passed scope functions .references)
  have : Decidable (∃ args', parse functions.contains text = [.call name args' text] ∧
      args'.map trim = first.map (fun v => trim (parse functions.contains v.display))) :=
    decIsCall name text _ (parse functions.contains text)
  inferInstanceAs (Decidable (_ ∧ (_ = _ → _ = _) ∧ (_ = _ → _ = _ → _ = _)))

mutual

/-- Decides whether a segment lasts. -/
def decLasts : (s : Segment) → Decidable (s.Lasts scope functions)
  | .text _ => isTrue trivial
  | .reference name raw fallback =>
    match h : scope name with
    | some v =>
      decidable_of_iff (evaluateText v.display scope functions .functions = v.display)
        (by simp only [Lasts, h])
    | none =>
      match decFallbackLasts fallback with
      | isTrue hf => isTrue (by simpa only [Lasts, h] using hf)
      | isFalse hf => isFalse (by simpa only [Lasts, h] using hf)
  | .call name args raw =>
    have := decArgsLast args
    inferInstanceAs (Decidable (ArgsLast scope functions args ∧
      CallLasts scope functions name args raw))
termination_by structural s => s

/-- Decides the same for a fallback. -/
def decFallbackLasts : (fallback : Option (List Segment)) →
    Decidable (FallbackLasts scope functions fallback)
  | none => isTrue trivial
  | some segments => decAllLast segments
termination_by structural f => f

/-- Decides the same for a list. -/
def decAllLast : (segments : List Segment) → Decidable (AllLast scope functions segments)
  | [] => isTrue trivial
  | s :: rest =>
    have := decLasts s
    have := decAllLast rest
    inferInstanceAs (Decidable (s.Lasts scope functions ∧ AllLast scope functions rest))
termination_by structural segments => segments

/-- Decides the same for the arguments of a call. -/
def decArgsLast : (args : List (List Segment)) → Decidable (ArgsLast scope functions args)
  | [] => isTrue trivial
  | arg :: rest =>
    have := decAllLast arg
    have := decArgsLast rest
    inferInstanceAs (Decidable ((if anyHoldsCall scope (trim arg) = true then
      AllLast scope functions arg ∧ JoinedLasts scope functions arg
      else LiteralLasts scope functions arg) ∧ ArgsLast scope functions rest))
termination_by structural args => args

end

end

variable {scope : Scope} {functions : Functions} {mode : Mode}

/-! ## Where no call is reached -/

mutual

theorem eval_of_no_call : ∀ s : Segment, s.holdsCall scope = false →
    s.eval scope functions .references = s.eval scope functions .all
  | .text t, _ => rfl
  | .reference name raw fallback, h => by
    rw [holdsCall] at h
    rw [eval, eval]
    cases hfound : scope name with
    | some v => rfl
    | none =>
      rw [hfound] at h
      simp only [Mode.replaces, if_true, evalFallback_of_no_call raw fallback h]
  | .call name args raw, h => by cases h
termination_by structural s => s

theorem evalFallback_of_no_call (raw : String) : ∀ fallback : Option (List Segment),
    fallbackHoldsCall scope fallback = false →
    evalFallback scope functions .references raw fallback =
      evalFallback scope functions .all raw fallback
  | none, _ => rfl
  | some segments, h => by rw [evalFallback, evalFallback, evalList_of_no_call segments h]
termination_by structural fallback => fallback

theorem evalList_of_no_call : ∀ segments : List Segment, anyHoldsCall scope segments = false →
    evalList scope functions .references segments = evalList scope functions .all segments
  | [], _ => rfl
  | s :: rest, h => by
    obtain ⟨hs, hrest⟩ := Bool.or_eq_false_iff.1 h
    rw [evalList, evalList, eval_of_no_call s hs, evalList_of_no_call rest hrest]
termination_by structural segments => segments

end

/-- An argument without calls is passed the same, whether calls are made or not. -/
theorem passed_of_no_call {arg : List Segment} (h : anyHoldsCall scope (trim arg) = false) :
    passed scope functions .references arg = passed scope functions .all arg := by
  rw [passed_of_trim, passed_of_trim, evalList_of_no_call (trim arg) h]

/-! ## Where one call gives the value -/

mutual

theorem value_of_soleCall (hmode : mode.replaces = true) {call : Segment} : ∀ s : Segment,
    s.soleCall? scope = some call →
    (s.eval scope functions mode).outcome.value = (call.eval scope functions mode).outcome.value
  | .text t, h => by cases h
  | .reference name raw fallback, h => by
    rw [soleCall?] at h
    rw [eval]
    cases hfound : scope name with
    | some v =>
      rw [hfound] at h
      cases h
    | none =>
      rw [hfound] at h
      simp only [hmode, if_true]
      exact fallback_of_soleCall hmode raw fallback h
  | .call name args raw, h => by rw [← Option.some.inj h]
termination_by structural s => s

theorem fallback_of_soleCall (hmode : mode.replaces = true) {call : Segment} (raw : String) :
    ∀ fallback : Option (List Segment), fallbackSoleCall? scope fallback = some call →
      (evalFallback scope functions mode raw fallback).value =
        (call.eval scope functions mode).outcome.value
  | none, h => by cases h
  | some segments, h => list_of_soleCall hmode segments h
termination_by structural fallback => fallback

theorem list_of_soleCall (hmode : mode.replaces = true) {call : Segment} :
    ∀ segments : List Segment, listSoleCall? scope segments = some call →
      (Piece.combine (evalList scope functions mode segments)).value =
        (call.eval scope functions mode).outcome.value
  | [], h => by cases h
  | [s], h => value_of_soleCall hmode s h
  | _ :: _ :: _, h => by cases h
termination_by structural segments => segments

end

mutual

/-- Where calls are reached but none of them gives the value, the value is a text. -/
theorem value_of_no_soleCall (hmode : mode.replaces = true) : ∀ s : Segment,
    s.soleCall? scope = none → s.holdsCall scope = true →
    ∃ t, (s.eval scope functions mode).outcome.value = .str t
  | .text t, _, h => by cases h
  | .reference name raw fallback, hsole, hcall => by
    rw [soleCall?] at hsole
    rw [holdsCall] at hcall
    rw [eval]
    cases hfound : scope name with
    | some v =>
      rw [hfound] at hcall
      cases hcall
    | none =>
      rw [hfound] at hsole hcall
      simp only [hmode, if_true]
      exact fallback_of_no_soleCall hmode raw fallback hsole hcall
  | .call name args raw, h, _ => by cases h
termination_by structural s => s

theorem fallback_of_no_soleCall (hmode : mode.replaces = true) (raw : String) :
    ∀ fallback : Option (List Segment), fallbackSoleCall? scope fallback = none →
      fallbackHoldsCall scope fallback = true →
      ∃ t, (evalFallback scope functions mode raw fallback).value = .str t
  | none, _, h => by cases h
  | some segments, hsole, hcall => list_of_no_soleCall hmode segments hsole hcall
termination_by structural fallback => fallback

theorem list_of_no_soleCall (hmode : mode.replaces = true) : ∀ segments : List Segment,
    listSoleCall? scope segments = none → anyHoldsCall scope segments = true →
    ∃ t, (Piece.combine (evalList scope functions mode segments)).value = .str t
  | [], _, h => by cases h
  | [s], hsole, hcall =>
    value_of_no_soleCall hmode s hsole
      ((Bool.or_eq_true_iff.1 hcall).resolve_right Bool.false_ne_true)
  | _ :: _ :: _, _, _ => ⟨_, rfl⟩
termination_by structural segments => segments

end

/-! ## Calls that are read again -/

theorem combine_found {segments : List Segment}
    (h : ∀ s ∈ segments, (s.eval scope functions mode).outcome.unresolved = false) :
    (Piece.combine (evalList scope functions mode segments)).unresolved = false := by
  match segments with
  | [] => rfl
  | [s] => exact h s List.mem_cons_self
  | s :: s' :: rest =>
    rw [evalList_eq_map]
    show ((s :: s' :: rest).map (eval scope functions mode)).any (fun p => p.outcome.unresolved) =
      false
    rw [List.any_map, List.any_eq_false]
    exact fun s₀ hs₀ => Bool.eq_false_iff.1 (h s₀ hs₀)

mutual

/-- Where references keep their spelling, none of them is missed. -/
theorem found_of_kept : ∀ s : Segment,
    (s.eval scope functions .functions).outcome.unresolved = false
  | .text t => rfl
  | .reference name raw fallback => rfl
  | .call name args raw => by
    have hargs := args_found_of_kept args
    rw [eval, Piece.outcome, callOutcome]
    split
    · rfl
    · exact hargs
termination_by structural s => s

theorem list_found_of_kept : ∀ segments : List Segment,
    ∀ s ∈ segments, (s.eval scope functions .functions).outcome.unresolved = false
  | [] => by simp
  | s :: rest => List.forall_mem_cons.2 ⟨found_of_kept s, list_found_of_kept rest⟩
termination_by structural segments => segments

theorem args_found_of_kept : ∀ args : List (List Segment),
    (evalArgs scope functions .functions args).any Outcome.unresolved = false
  | [] => rfl
  | arg :: rest => by
    have harg : ∀ s ∈ trim arg, (s.eval scope functions .functions).outcome.unresolved = false := by
      intro s hs
      rcases mem_trim hs with hs | htext
      · exact list_found_of_kept arg s hs
      · cases s with
        | text t => rfl
        | reference name raw fallback => cases htext
        | call name args raw => cases htext
    rw [evalArgs, List.any_cons, args_found_of_kept rest, ← evalList_trim, combine_found harg]
    rfl
termination_by structural args => args

end

/-- A call that is made has the value of its function, and one that is not made is spelled. -/
theorem value_call (name raw : String) (args : List (List Segment)) :
    ((Segment.call name args raw).eval scope functions mode).outcome.value =
      (if mode.calls && !(evalArgs scope functions mode args).any Outcome.unresolved then
        functions.call? name (args.map (passed scope functions mode)) else none).getD
          (.str (callSpelling name raw (args.map (fun arg => trimmed (rawOf arg)))
            (args.map (passed scope functions mode)))) := by
  rw [eval, Piece.outcome, callOutcome, map_argument_evalArgs]
  split
  · next v hmade => rw [hmade]; rfl
  · next hmade => rw [hmade]; rfl

theorem written_call (name raw : String) (args : List (List Segment)) :
    written scope functions (.call name args raw) =
      callSpelling name raw (args.map (fun arg => trimmed (rawOf arg)))
        (args.map (passed scope functions .references)) := by
  rw [written, value_call]
  rfl

/-- The text of a call is no number, so it is shown as it is spelled. -/
theorem display_ofLiteral_call {isFunction : String → Bool} {text name raw : String}
    {args : List (List Segment)} (h : parse isFunction text = [.call name args raw]) :
    (Value.ofLiteral text).display = text := by
  have hwithin : Within (.call name args raw) (parse isFunction text) := by
    rw [h]
    exact .here List.mem_cons_self
  have hraw : raw = text := by
    have hspelled := rawOf_parse isFunction text
    rw [h, rawOf_singleton] at hspelled
    exact hspelled
  obtain ⟨l, rest, hscanned, hfirst⟩ := within_first hwithin (isRead_parse isFunction text) rfl
  have hfirm : (Segment.call name args raw).IsFirm := by
    rw [hfirst]
    exact isFirm_first hscanned (by rw [← hfirst]; rfl)
  have htrimmed : Text.IsTrimmed text.toList := hraw ▸ hfirm.2
  by_contra hne
  have hopening : '(' ∈ text.toList := by
    rw [← hraw, raw_call hscanned hfirst.symm]
    simp
  exact absurd ((Value.isNumeral_of_display_ne htrimmed hne).1 '(' hopening) (by decide)

/-- The text of trimmed segments of a text. -/
theorem rawOf_trim_parse (isFunction : String → Bool) (text : String) :
    rawOf (trim (parse isFunction text)) = trimmed text := by
  have hspaced : IsSpaced (parse isFunction text) := isSpaced_ofLexemes (Lexeme.scanned_scan _)
  rw [rawOf_trim hspaced, rawOf_parse]

/-- What has to be known about an argument: the value that is read from its text, and when its text
    has blanks at its ends. -/
structure ArgReads (scope : Scope) (functions : Functions) (arg : List Segment) : Prop where
  value : passed scope functions .functions
      (parse functions.contains (passed scope functions .references arg).display) =
    passed scope functions .all arg
  text : trimmed (passed scope functions .references arg).display =
      (passed scope functions .all arg).display →
    (passed scope functions .references arg).display = (passed scope functions .all arg).display

/-- A call that is not made, neither at once nor when it is read again, has the same text. -/
theorem callSpelling_reread (name raw : String) {given : List String} {first values : List Value}
    (htrimmed : given.map trimmed = given)
    (hspelled : values.map Value.display = given → first.map Value.display = given)
    (htext : first.map (fun v => trimmed v.display) = values.map Value.display →
      first.map Value.display = values.map Value.display) :
    callSpelling name (callSpelling name raw given first)
        (first.map (fun v => trimmed v.display)) values =
      callSpelling name raw given values := by
  by_cases hfirst : first.map Value.display = given
  · -- The call was written as it is spelled.
    have hgiven : first.map (fun v => trimmed v.display) = given := by
      rw [← htrimmed, ← hfirst, List.map_map]
      rfl
    have hwritten : callSpelling name raw given first = raw := if_pos hfirst
    rw [hgiven, hwritten]
  · have hwritten : callSpelling name raw given first =
        name ++ "(" ++ ", ".intercalate (first.map Value.display) ++ ")" := if_neg hfirst
    have honce : callSpelling name raw given values =
        name ++ "(" ++ ", ".intercalate (values.map Value.display) ++ ")" :=
      if_neg fun h => hfirst (hspelled h)
    rw [honce, hwritten, callSpelling]
    split
    · next hsame => rw [htext hsame.symm]
    · rfl

/-- **A call that is read again has the value that it has in one phase.** -/
theorem value_reread {name raw : String} {args : List (List Segment)}
    (h : CallLasts scope functions name args raw)
    (hargs : ∀ arg ∈ args, ArgReads scope functions arg) :
    ∃ args', parse functions.contains (written scope functions (.call name args raw)) =
        [.call name args' (written scope functions (.call name args raw))] ∧
      ((Segment.call name args' (written scope functions (.call name args raw))).eval scope
          functions .functions).outcome.value =
        ((Segment.call name args raw).eval scope functions .all).outcome.value := by
  obtain ⟨⟨args', hparse, htrim⟩, hmissing, hspelled⟩ := h
  refine ⟨args', hparse, ?_⟩
  have hwithin : Within (.call name args' (written scope functions (.call name args raw)))
      (parse functions.contains (written scope functions (.call name args raw))) := by
    rw [hparse]
    exact .here List.mem_cons_self
  obtain ⟨-, -, hcalls⟩ := parse_lossless functions.contains
    (written scope functions (.call name args raw))
  obtain ⟨-, hraws⟩ := hcalls _ _ _ hwithin
  -- The arguments are read from their texts, with blanks around them.
  have hgiven : args'.map (fun arg => trimmed (rawOf arg)) =
      (args.map (passed scope functions .references)).map (fun v => trimmed v.display) := by
    have htrims : args'.map (fun arg => trimmed (rawOf arg)) = (args'.map trim).map rawOf := by
      rw [List.map_map]
      exact List.map_congr_left fun arg harg => (hraws arg harg).2.symm
    rw [htrims, htrim, List.map_map]
    exact List.map_congr_left fun v _ => rawOf_trim_parse functions.contains v.display
  have hvalues : args'.map (passed scope functions .functions) =
      args.map (passed scope functions .all) := by
    have htrims : args'.map (passed scope functions .functions) = (args'.map trim).map (fun arg =>
        (Piece.combine (evalList scope functions .functions arg)).value.argument) := by
      rw [List.map_map]
      exact List.map_congr_left fun arg _ => passed_of_trim arg
    rw [htrims, htrim, List.map_map, List.map_map]
    refine List.map_congr_left fun arg harg => ?_
    rw [← (hargs arg harg).value, passed_of_trim]
    rfl
  rw [value_call, value_call, hgiven, hvalues, args_found_of_kept]
  cases hmade : functions.call? name (args.map (passed scope functions .all)) with
  | some v =>
    have hfound : (evalArgs scope functions .all args).any Outcome.unresolved = false := by
      rw [Bool.eq_false_iff]
      intro hunresolved
      rw [hmissing hunresolved] at hmade
      cases hmade
    rw [hfound]
    rfl
  | none =>
    simp only [ite_self, Option.getD_none, Value.str.injEq]
    rw [written_call]
    refine callSpelling_reread name raw ?_ (hspelled hmade) ?_
    · rw [List.map_map]
      exact List.map_congr_left fun arg _ => Text.trimmed_trimmed (rawOf arg)
    · intro hsame
      rw [List.map_map, List.map_map, List.map_inj_left] at hsame ⊢
      exact fun arg harg => (hargs arg harg).text (hsame arg harg)

/-! ## Arguments that are read again -/

theorem value_of_not_lone {segments : List Segment} (h : ¬ IsLone segments) :
    ∃ t, (Piece.combine (evalList scope functions mode segments)).value = .str t := by
  match segments with
  | [] => exact ⟨_, rfl⟩
  | [.text t] => exact ⟨t, rfl⟩
  | [.reference name raw fallback] => exact absurd ⟨_, rfl, rfl⟩ h
  | [.call name args raw] => exact absurd ⟨_, rfl, rfl⟩ h
  | _ :: _ :: _ => exact ⟨_, rfl⟩

/-- Whether a call yields its text in the first phase, and the text is read again with the value
    that the call has in one phase. -/
def CallReads (scope : Scope) (functions : Functions) (call : Segment) : Prop :=
  let text := written scope functions call
  (call.eval scope functions .references).outcome.value = .str text ∧
    ∃ name args, parse functions.contains text = [.call name args text] ∧
      ((Segment.call name args text).eval scope functions .functions).outcome.value =
        (call.eval scope functions .all).outcome.value

/-- A segment whose value is that of one call is the call, or its fallback yields it. -/
theorem exists_of_listSoleCall {arg : List Segment} {call : Segment}
    (h : listSoleCall? scope (trim arg) = some call) :
    ∃ s ∈ arg, s.soleCall? scope = some call := by
  match htrim : trim arg with
  | [] => rw [htrim] at h; cases h
  | _ :: _ :: _ => rw [htrim] at h; cases h
  | [s] =>
    rw [htrim] at h
    rcases mem_trim (htrim ▸ List.mem_cons_self : s ∈ trim arg) with hmem | htext
    · exact ⟨s, hmem, h⟩
    · cases s with
      | text t => cases h
      | reference name raw fallback => cases htext
      | call name args raw => cases htext

theorem argReads_of_soleCall {arg : List Segment} {call : Segment}
    (hsole : listSoleCall? scope (trim arg) = some call) (hcall : CallReads scope functions call) :
    ArgReads scope functions arg := by
  obtain ⟨hwritten, name, args, hparse, hvalue⟩ := hcall
  have hfirst : passed scope functions .references arg =
      .ofLiteral (written scope functions call) := by
    rw [passed_of_trim, list_of_soleCall rfl _ hsole, hwritten, Value.argument]
  constructor
  · rw [hfirst, display_ofLiteral_call hparse, hparse, passed_of_trim, passed_of_trim,
      list_of_soleCall rfl _ hsole, ← hvalue]
    rfl
  · rw [hfirst, Value.trimmed_display_ofLiteral]
    exact id

theorem argReads_of_joined {arg : List Segment} (hcalls : anyHoldsCall scope (trim arg) = true)
    (hsole : listSoleCall? scope (trim arg) = none) (hjoined : JoinedLasts scope functions arg)
    (hshown : shown scope functions .functions (betweenList scope functions arg) =
      shown scope functions .all arg) : ArgReads scope functions arg := by
  obtain ⟨hread, hlone⟩ := hjoined hsole
  obtain ⟨first, hfirst⟩ :=
    @list_of_no_soleCall scope functions .references rfl (trim arg) hsole hcalls
  obtain ⟨once, honce⟩ := @list_of_no_soleCall scope functions .all rfl (trim arg) hsole hcalls
  constructor
  · rw [← hread] at hlone
    obtain ⟨again, hagain⟩ := @value_of_not_lone scope functions .functions _ hlone
    rw [passed_of_text hagain, passed_of_text honce, ← hshown]
    apply Value.ofLiteral_congr
    rw [← trimmed_shown_trim, hread, trimmed_shown_trim]
  · rw [passed_of_text hfirst, Value.trimmed_display_ofLiteral]
    exact id

theorem argReads_of_literal {arg : List Segment} (hcalls : anyHoldsCall scope (trim arg) = false)
    (hliteral : LiteralLasts scope functions arg) : ArgReads scope functions arg := by
  have hsame := @passed_of_no_call scope functions arg hcalls
  constructor
  · exact hliteral.trans hsame
  · rw [hsame]
    exact fun _ => rfl

/-! ## What lasts has the same value -/

mutual

/-- **What stands in the place of a segment** has the text that the segment has in one phase, and
    the value if it is that of a call. -/
theorem reads_segment : ∀ s : Segment, s.Lasts scope functions →
    shown scope functions .functions (s.between scope functions) =
        (s.eval scope functions .all).outcome.value.display ∧
      ∀ call, s.soleCall? scope = some call → CallReads scope functions call
  | .text t, _ => ⟨shown_singleton scope .functions _, fun _ h => by cases h⟩
  | .reference name raw fallback, h => by
    rw [Lasts] at h
    rw [between, soleCall?, eval]
    cases hfound : scope name with
    | some v =>
      rw [hfound] at h
      exact ⟨(evaluateText_eq_shown scope .functions v.display).symm.trans h, fun _ hcall => by cases hcall⟩
    | none =>
      rw [hfound] at h
      exact reads_fallback name raw fallback h
  | .call name args raw, h => by
    obtain ⟨args', hparse, hvalue⟩ := value_reread h.2 (reads_args args h.1)
    have hwritten : ((Segment.call name args raw).eval scope functions .references).outcome.value =
        .str (written scope functions (.call name args raw)) := by
      rw [written_call, value_call]
      rfl
    refine ⟨?_, ?_⟩
    · rw [between, hparse, shown_singleton, hvalue]
    · rintro _ ⟨⟩
      exact ⟨hwritten, name, args', hparse, hvalue⟩
termination_by structural s => s

theorem reads_fallback (name raw : String) : ∀ fallback : Option (List Segment),
    FallbackLasts scope functions fallback →
    shown scope functions .functions (betweenFallback scope functions name raw fallback) =
        (evalFallback scope functions .all raw fallback).value.display ∧
      ∀ call, fallbackSoleCall? scope fallback = some call → CallReads scope functions call
  | none, _ => ⟨shown_singleton scope .functions _, fun _ h => by cases h⟩
  | some segments, h => by
    obtain ⟨hshown, hsole⟩ := reads_list segments h
    refine ⟨?_, fun call hcall => ?_⟩
    · rw [betweenFallback, hshown, evalFallback]
      exact (display_combine scope segments).symm
    · match segments with
      | [] => cases hcall
      | [s] => exact hsole s List.mem_cons_self call hcall
      | _ :: _ :: _ => cases hcall
termination_by structural fallback => fallback

theorem reads_list : ∀ segments : List Segment, AllLast scope functions segments →
    shown scope functions .functions (betweenList scope functions segments) =
        shown scope functions .all segments ∧
      ∀ s ∈ segments, ∀ call, s.soleCall? scope = some call → CallReads scope functions call
  | [], _ => ⟨rfl, by simp⟩
  | s :: rest, h => by
    obtain ⟨hs, hsole⟩ := reads_segment s h.1
    obtain ⟨hrest, hothers⟩ := reads_list rest h.2
    refine ⟨?_, List.forall_mem_cons.2 ⟨hsole, hothers⟩⟩
    rw [betweenList, shown_joined, hs, hrest, shown_cons]
termination_by structural segments => segments

theorem reads_args : ∀ args : List (List Segment), ArgsLast scope functions args →
    ∀ arg ∈ args, ArgReads scope functions arg
  | [], _ => by simp
  | arg :: rest, h => by
    obtain ⟨harg, hrest⟩ := h
    refine List.forall_mem_cons.2 ⟨?_, reads_args rest hrest⟩
    cases hcalls : anyHoldsCall scope (trim arg) with
    | false =>
      rw [hcalls, if_neg Bool.false_ne_true] at harg
      exact argReads_of_literal hcalls harg
    | true =>
      rw [hcalls, if_pos rfl] at harg
      obtain ⟨hshown, hcall⟩ := reads_list arg harg.1
      cases hsole : listSoleCall? scope (trim arg) with
      | none => exact argReads_of_joined hcalls hsole harg.2 hshown
      | some call =>
        obtain ⟨s, hs, hscall⟩ := exists_of_listSoleCall hsole
        exact argReads_of_soleCall hsole (hcall s hs call hscall)
termination_by structural args => args

end

end Segment

/-- Whether nothing of a text is lost between the phases: what its references and calls stand for
    lasts, and the text between the phases is read as what it was put together from. -/
def Lasting (scope : Scope) (functions : Functions) (text : String) : Prop :=
  let segments := Segment.parse functions.contains text
  Segment.AllLast scope functions segments ∧
    Segment.parse functions.contains (evaluateText text scope functions .references) =
      Segment.betweenList scope functions segments

instance (scope : Scope) (functions : Functions) : DecidablePred (Lasting scope functions) :=
  fun text =>
    have := Segment.decAllLast scope functions (Segment.parse functions.contains text)
    inferInstanceAs (Decidable (_ ∧ _ = _))

theorem evaluateText_phases {scope : Scope} {functions : Functions} {text : String}
    (h : Lasting scope functions text) :
    evaluateText (evaluateText text scope functions .references) scope functions .functions =
      evaluateText text scope functions .all := by
  rw [Segment.evaluateText_eq_shown, h.2, Segment.evaluateText_eq_shown]
  exact (Segment.reads_list _ h.1).1

namespace Template.Loader

/-- **A loader that replaces the variables of a text and then makes its calls** comes to what one
    evaluation of the text does, if nothing is lost between the phases. -/
theorem resolve_eq_evaluateText (l : Loader) (text : String)
    (h : Lasting l.bindings.scope l.functions text) :
    (l.resolve text).1 = evaluateText text l.bindings.scope l.functions .all :=
  evaluateText_phases h

/-- Calls in calls, in the fallback of a variable that is not there, and around plain values. -/
theorem resolve_eq_evaluateText_nested :
    let l : Loader :=
      { start [] Functions.builtin with bindings := [("gap", .int 3), ("tone", .str "red")] }
    let text := "math(add, math(add, $gap, 2), 1) $tone var(--none, math(add, 1))"
    Lasting l.bindings.scope l.functions text ∧
      (l.resolve text).1 = evaluateText text l.bindings.scope l.functions .all ∧
      (l.resolve text).1 = "6 red 1" := by
  intro l text
  have hlasting : Lasting l.bindings.scope l.functions text := by decide +kernel
  exact ⟨hlasting, resolve_eq_evaluateText l text hlasting, by decide +kernel⟩

/-- A value that spells a call: the call is made in the second phase. -/
theorem resolve_calls_in_value :
    let l : Loader :=
      { start [] Functions.builtin with bindings := [("x", .str "math(add, 1, 2)")] }
    (l.resolve "$x").1 = "3" ∧
      evaluateText "$x" l.bindings.scope l.functions .all = "math(add, 1, 2)" ∧
      (l.resolve "$x").1 ≠ evaluateText "$x" l.bindings.scope l.functions .all := by
  decide +kernel

end Template.Loader

end Theming
