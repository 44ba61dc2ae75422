import Theming.Proofs.Token.Literals
import Theming.Proofs.Token.Splicing

set_option autoImplicit false

/-! # Calls that are not made

A call that gives no value keeps its spelling as long as its arguments are shown as they are
spelled. Otherwise they are written anew, with a comma and a space between them. No accident of
blanks and commas makes that the old spelling again (`eq_trim_of_intercalate`), so for arguments of
plain text it is exactly numbers that are spelled otherwise than they are shown that change the text
of a call (`callSpelling_eq_iff`).

The main result is `call_verbatim`. -/

namespace Theming

namespace Text

/-! ## Texts between commas -/

theorem split_comma {a b x y : List Char} (ha : ',' ∉ a) (hb : ',' ∉ b)
    (h : a ++ ',' :: x = b ++ ',' :: y) : a = b ∧ x = y := by
  induction a generalizing b with
  | nil =>
    cases b with
    | nil => exact ⟨rfl, (List.cons.inj h).2⟩
    | cons d b => exact absurd ((List.cons.inj h).1 ▸ List.mem_cons_self) hb
  | cons c a ih =>
    cases b with
    | nil => exact absurd ((List.cons.inj h).1 ▸ List.mem_cons_self) ha
    | cons d b =>
      obtain ⟨rfl, hrest⟩ := List.cons.inj h
      obtain ⟨rfl, hxy⟩ := ih (fun hmem => ha (List.mem_cons_of_mem c hmem))
        (fun hmem => hb (List.mem_cons_of_mem c hmem)) hrest
      exact ⟨rfl, hxy⟩

/-- How a text may be written anew between commas: trimmed, or as another one without blanks at the
    ends, where neither has a comma. -/
def Rewrites (w r : List Char) : Prop := r = trim w ∨ IsTrimmed r ∧ ',' ∉ r ∧ ',' ∉ w

/-- The first text of two that are spelled alike is trimmed, and so what follows it is alike. -/
theorem eq_trim_of_comma {w r blanks x y : List Char} (hblanks : ∀ c ∈ blanks, isBlank c = true)
    (h : Rewrites w r) (heq : blanks ++ (r ++ ',' :: x) = w ++ ',' :: y) : r = trim w ∧ x = y := by
  have hcomma : isBlank ',' = false := by decide
  rcases h with rfl | ⟨htrimmed, hr, hw⟩
  · -- Without the blanks in front both sides start with the trimmed text.
    refine ⟨rfl, ?_⟩
    obtain ⟨back, hback, hblank⟩ := exists_trimEnd_blank (trimStart w)
    have hrest : ∀ t c, (',' :: t).head? = some c → isBlank c = false := by
      rintro t _ ⟨⟩
      exact hcomma
    have hboth := congrArg trimStart heq
    rw [trimStart_append (isBlank_head?_append (isTrimmed_trim w) (hrest x)),
      trimStart_of_blank hblanks, List.nil_append, trimStart_append (hrest y), hback,
      List.append_assoc] at hboth
    have hbehind := List.append_cancel_left hboth
    cases back with
    | nil => exact (List.cons.inj hbehind).2
    | cons c back =>
      have hc := hblank c List.mem_cons_self
      rw [← (List.cons.inj hbehind).1, hcomma] at hc
      cases hc
  · have hlead : ',' ∉ blanks ++ r := by
      intro hmem
      rcases List.mem_append.1 hmem with hmem | hmem
      · rw [hblanks _ hmem] at hcomma
        cases hcomma
      · exact hr hmem
    rw [← List.append_assoc] at heq
    obtain ⟨rfl, hxy⟩ := split_comma hlead hw heq
    exact ⟨(trim_append_of_blank hblanks htrimmed).symm, hxy⟩

/-- **Texts that are written anew between commas and spaces are spelled alike only if each of them
    is trimmed.** Blanks may be in front of them all. -/
theorem eq_trim_of_intercalate {α : Type} {w r : α → List Char} : ∀ {list : List α}
    {blanks : List Char}, (∀ c ∈ blanks, isBlank c = true) → (∀ a ∈ list, Rewrites (w a) (r a)) →
    blanks ++ [',', ' '].intercalate (list.map r) = [','].intercalate (list.map w) →
    ∀ a ∈ list, r a = trim (w a)
  | [], _, _, _, _ => by simp
  | [a], blanks, hblanks, h, heq => by
    rw [List.map_singleton, List.map_singleton, List.intercalate_singleton,
      List.intercalate_singleton] at heq
    have ha : r a = trim (w a) := by
      rcases h a List.mem_cons_self with ha | ⟨htrimmed, -, -⟩
      · exact ha
      · rw [← heq, trim_append_of_blank hblanks htrimmed]
    simpa using ha
  | a :: b :: rest, blanks, hblanks, h, heq => by
    have hothers : ∀ a' ∈ b :: rest, Rewrites (w a') (r a') :=
      fun a' ha' => h a' (List.mem_cons_of_mem a ha')
    rw [List.map_cons, List.map_cons, List.map_cons, List.map_cons, List.intercalate_cons_cons,
      List.intercalate_cons_cons, ← List.map_cons, ← List.map_cons] at heq
    simp only [List.cons_append, List.nil_append, List.append_assoc] at heq
    obtain ⟨ha, hrest⟩ := eq_trim_of_comma hblanks (h a List.mem_cons_self) heq
    have hspace : ∀ c ∈ [' '], isBlank c = true :=
      fun c hc => List.mem_singleton.1 hc ▸ isBlank_space
    have ih := eq_trim_of_intercalate hspace hothers hrest
    exact List.forall_mem_cons.2 ⟨ha, ih⟩

end Text

namespace Segment

open Text (IsTrimmed Rewrites isTrimmed_trim trimmed)
open Value (isCanonical)

variable {scope : Scope} {functions : Functions} {mode : Mode}

/-! ## Arguments of plain text -/

/-- The value that an argument of plain text is passed as. -/
def literal (arg : List Segment) : Value := .ofLiteral (trimmed (rawOf arg))

/-- Neighbouring texts are one segment, so plain text is one text or nothing. -/
theorem eq_text_of_plain {arg : List Segment} (h : Alternates arg) (hplain : isDynamic arg = false) :
    arg = [] ∨ ∃ t, arg = [.text t] := by
  have htexts : ∀ s ∈ arg, s.isText = true := by simpa [isDynamic] using hplain
  cases arg with
  | nil => exact Or.inl rfl
  | cons s rest =>
    have hs := htexts s List.mem_cons_self
    cases rest with
    | nil =>
      cases s with
      | text t => exact Or.inr ⟨t, rfl⟩
      | reference name raw fallback => cases hs
      | call name args raw => cases hs
    | cons s' others =>
      have hnext := (List.isChain_cons_cons.1 h).1 hs
      rw [htexts s' (by simp)] at hnext
      cases hnext

theorem combine_of_plain {arg : List Segment} (h : Alternates arg) (hplain : isDynamic arg = false) :
    Piece.combine (Piece.trim (evalList scope functions mode arg)) =
      ⟨.str (trimmed (rawOf arg)), false⟩ := by
  rcases eq_text_of_plain h hplain with rfl | ⟨t, rfl⟩
  · rfl
  · have htrim : Piece.trimLast (Piece.trimFirst [.text t]) = [.text (trimmed t)] := by
      rw [Piece.trimFirst, Piece.trimLast, String.toList_ofList]
      rfl
    show Piece.combine ((Piece.trimLast (Piece.trimFirst [.text t])).filter Piece.isFilled) = _
    rw [rawOf_singleton, raw, htrim]
    by_cases hempty : trimmed t = ""
    · rw [hempty]
      rfl
    · rw [List.filter_cons_of_pos (by simpa [Piece.isFilled] using hempty)]
      rfl

theorem evalArgs_of_plain : ∀ {args : List (List Segment)},
    (∀ arg ∈ args, Alternates arg) → (∀ arg ∈ args, isDynamic arg = false) →
    evalArgs scope functions mode args =
      args.map (fun arg => ⟨.str (trimmed (rawOf arg)), false⟩)
  | [], _, _ => rfl
  | arg :: rest, h, hplain => by
    rw [evalArgs, combine_of_plain (h arg List.mem_cons_self) (hplain arg List.mem_cons_self),
      evalArgs_of_plain (fun a ha => h a (List.mem_cons_of_mem arg ha))
        (fun a ha => hplain a (List.mem_cons_of_mem arg ha)), List.map_cons]

/-- A call that gives no value for literals is spelled from them. -/
theorem eval_call_of_plain {name raw : String} {args : List (List Segment)}
    (h : ∀ arg ∈ args, Alternates arg) (hplain : ∀ arg ∈ args, isDynamic arg = false)
    (hfails : mode.calls = true → functions.call? name (args.map literal) = none) :
    (Segment.call name args raw).eval scope functions mode =
      .result ⟨.str (callSpelling name raw (args.map (fun arg => trimmed (rawOf arg)))
        (args.map literal)), false⟩ := by
  rw [eval, evalArgs_of_plain h hplain, callOutcome]
  have hvalues : (args.map (fun arg => (⟨.str (trimmed (rawOf arg)), false⟩ : Outcome))).map
      (fun o => o.value.argument) = args.map literal := by
    rw [List.map_map]
    refine List.map_congr_left fun arg _ => ?_
    rw [Function.comp_apply, Value.argument, literal]
  have hfound : (args.map (fun arg => (⟨.str (trimmed (rawOf arg)), false⟩ : Outcome))).any
      Outcome.unresolved = false := by
    simp
  simp only [hvalues, hfound, Bool.not_false, Bool.and_true]
  cases hmode : mode.calls with
  | false => rfl
  | true => rw [if_pos rfl, hfails hmode]

/-! ## Spellings of calls -/

theorem isTrimmed_trimmed (s : String) : IsTrimmed (trimmed s).toList := by
  rw [trimmed, String.toList_ofList]
  exact isTrimmed_trim s.toList

theorem display_literal_iff (arg : List Segment) :
    (literal arg).display = trimmed (rawOf arg) ↔ isCanonical (trimmed (rawOf arg)) = true :=
  Value.display_ofLiteral_iff (isTrimmed_trimmed _)

/-- Literals are written anew without blanks at their ends, and numbers without commas. -/
theorem rewrites_literal (arg : List Segment) :
    Rewrites (rawOf arg).toList (literal arg).display.toList := by
  by_cases hsame : (literal arg).display = trimmed (rawOf arg)
  · left
    rw [hsame, trimmed, String.toList_ofList]
  · right
    obtain ⟨hbefore, hafter⟩ := Value.isNumeral_of_display_ne (isTrimmed_trimmed (rawOf arg)) hsame
    rw [trimmed, String.toList_ofList] at hbefore
    refine ⟨hafter.isTrimmed, hafter.comma_notMem, fun hmem => ?_⟩
    exact hbefore.comma_notMem (Text.mem_trim hmem (by decide))

/-- Literals between commas and spaces spell the arguments only if each is shown as it is spelled. -/
theorem display_of_intercalate {args : List (List Segment)}
    (h : ", ".intercalate ((args.map literal).map Value.display) =
      ",".intercalate (args.map rawOf)) :
    ∀ arg ∈ args, (literal arg).display = trimmed (rawOf arg) := by
  have hchars : [',', ' '].intercalate (args.map (fun arg => (literal arg).display.toList)) =
      [','].intercalate (args.map (fun arg => (rawOf arg).toList)) := by
    have htoList := congrArg String.toList h
    simpa [String.toList_intercalate, Function.comp_def] using htoList
  have htrimmed : ∀ arg ∈ args, (literal arg).display.toList = Text.trim (rawOf arg).toList :=
    @Text.eq_trim_of_intercalate _ (fun arg => (rawOf arg).toList)
      (fun arg => (literal arg).display.toList) args [] (by simp)
      (fun arg _ => rewrites_literal arg) hchars
  intro arg harg
  rw [trimmed, ← htrimmed arg harg, String.ofList_toList]

/-- **A call is spelled from its literals as before exactly if each is shown as it is spelled.** -/
theorem callSpelling_eq_iff {name raw : String} {args : List (List Segment)}
    (hraw : raw = name ++ "(" ++ ",".intercalate (args.map rawOf) ++ ")") :
    callSpelling name raw (args.map (fun arg => trimmed (rawOf arg))) (args.map literal) = raw ↔
      ∀ arg ∈ args, isCanonical (trimmed (rawOf arg)) = true := by
  have hcanonical : (∀ arg ∈ args, (literal arg).display = trimmed (rawOf arg)) ↔
      ∀ arg ∈ args, isCanonical (trimmed (rawOf arg)) = true :=
    forall₂_congr fun arg _ => display_literal_iff arg
  have hrendered : (args.map literal).map Value.display =
      args.map (fun arg => trimmed (rawOf arg)) ↔
      ∀ arg ∈ args, (literal arg).display = trimmed (rawOf arg) := by
    simp only [List.map_map, List.map_inj_left, Function.comp_apply]
  rw [← hcanonical, callSpelling]
  constructor
  · intro heq
    split at heq
    · next hsame => exact hrendered.1 hsame
    · rw [hraw] at heq
      -- The name and the parentheses are the same on both sides.
      exact display_of_intercalate ((String.append_right_inj _).1 ((String.append_left_inj _).1 heq))
  · intro hsame
    rw [if_pos (hrendered.2 hsame)]

/-! ## Calls in texts -/

theorem evaluateText_eq {text : String} (h : isDynamic (parse functions.contains text) = true) :
    evaluateText text scope functions mode =
      shown scope functions mode (parse functions.contains text) := by
  rw [evaluateText, evaluate]
  simp only [h, if_true]
  exact Piece.display_combine _

/-- **A call that gives no value keeps its spelling exactly if its numbers are spelled as they are
    shown**, wherever it stands, if its arguments are plain text. So does the text that it stands
    in. -/
theorem call_verbatim (text : String) (scope : Scope) (functions : Functions) (mode : Mode)
    {name raw : String} {args : List (List Segment)}
    (hwithin : Within (.call name args raw) (parse functions.contains text))
    (hplain : ∀ arg ∈ args, isDynamic arg = false)
    (hfails : mode.calls = true → functions.call? name (args.map literal) = none) :
    ((Segment.call name args raw).eval scope functions mode = .result ⟨.str raw, false⟩ ↔
        ∀ arg ∈ args, isCanonical (trimmed (rawOf arg)) = true) ∧
      ∀ before after, parse functions.contains text = before ++ .call name args raw :: after →
        (evaluateText text scope functions mode =
            shown scope functions mode before ++ raw ++ shown scope functions mode after ↔
          ∀ arg ∈ args, isCanonical (trimmed (rawOf arg)) = true) := by
  obtain ⟨l, rest, hscanned, hfirst⟩ := within_first hwithin (isRead_parse _ text) rfl
  have halternates : ∀ arg ∈ args, Alternates arg := by
    obtain ⟨inner, after, -, -, rfl, -⟩ := call_first hfirst.symm
    intro arg harg
    obtain ⟨part, -, rfl⟩ := List.mem_map.1 harg
    exact alternates_ofLexemes _ part
  have hspelling := callSpelling_eq_iff (raw_call hscanned hfirst.symm)
  have heval := @eval_call_of_plain scope functions mode name raw args halternates hplain hfails
  constructor
  · rw [heval, ← hspelling]
    simp
  · intro before after hparse
    have hdynamic : isDynamic (parse functions.contains text) = true := by
      rw [hparse, isDynamic]
      simp [isText]
    rw [evaluateText_eq hdynamic, hparse, shown_append, shown_cons, heval, ← hspelling,
      String.append_assoc, String.append_right_inj, String.append_left_inj]
    exact Iff.rfl

/-- Blanks around a number do no harm, and a word is no number. -/
theorem call_verbatim_blanks :
    let text := "1px solid lighten(nocolor, -12 ,true)"
    let raw := "lighten(nocolor, -12 ,true)"
    let args : List (List Segment) := [[.text "nocolor"], [.text " -12 "], [.text "true"]]
    parse Functions.builtin.contains text = [.text "1px solid "] ++ .call "lighten" args raw :: [] ∧
      Functions.builtin.call? "lighten" (args.map literal) = none ∧
      (Segment.call "lighten" args raw).eval (fun _ => none) Functions.builtin .all =
        .result ⟨.str raw, false⟩ ∧
      evaluateText text (fun _ => none) Functions.builtin .all =
        shown (fun _ => none) Functions.builtin .all [.text "1px solid "] ++ raw ++
          shown (fun _ => none) Functions.builtin .all [] := by
  intro text raw args
  have hparse : parse Functions.builtin.contains text =
      [.text "1px solid "] ++ .call "lighten" args raw :: [] := by
    decide +kernel
  have hfails : Functions.builtin.call? "lighten" (args.map literal) = none := by decide +kernel
  have hcanonical : ∀ arg ∈ args, isCanonical (trimmed (rawOf arg)) = true := by decide +kernel
  have hwithin : Within (.call "lighten" args raw) (parse Functions.builtin.contains text) := by
    rw [hparse]
    exact .here (by simp)
  obtain ⟨heval, htext⟩ := call_verbatim text (fun _ => none) Functions.builtin .all hwithin
    (by decide +kernel) (fun _ => hfails)
  exact ⟨hparse, hfails, heval.2 hcanonical, (htext _ _ hparse).2 hcanonical⟩

/-- A call that is not made, with zeros in front of a number: they are dropped. -/
theorem call_drops_zeros :
    let text := "lighten(invalid_color, 007)"
    let args : List (List Segment) := [[.text "invalid_color"], [.text " 007"]]
    parse Functions.builtin.contains text = [.call "lighten" args text] ∧
      Functions.builtin.call? "lighten" (args.map literal) = none ∧
      evaluateText text (fun _ => none) Functions.builtin .all ≠ text := by
  decide +kernel

end Segment

end Theming
