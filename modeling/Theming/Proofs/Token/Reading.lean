import Theming.Proofs.Token.Scanning
import Theming.Token.Segment

set_option autoImplicit false

/-! # Reading expressions

Facts about how texts are read as segments. Lexemes are used up from the left: `Segment.first` is
the first segment and what is left (`ofLexemes_cons`), and `Segment.append` puts it in front of the
segments of the rest. So the segments of a text spell the text (`rawOf_parse`). -/

namespace Theming

/-! ## Lexemes of a text -/

namespace Lexeme

/-- Whether a parenthesis is spelled as one. -/
def IsSpelled (l : Lexeme) : Prop :=
  (l.kind = .opening → l.text = ['(']) ∧ (l.kind = .closing → l.text = [')'])

/-- What a dollar sign starts is no parenthesis and no comma. -/
theorem afterDollar_kind (rest : List Char) :
    (afterDollar rest).1 ≠ .opening ∧ (afterDollar rest).1 ≠ .closing ∧
      (afterDollar rest).1 ≠ .comma := by
  unfold afterDollar
  split
  · split <;> simp
  · split <;> simp
  · simp

theorem isSpelled_next (c : Char) (rest : List Char) :
    IsSpelled ⟨(next c rest).1, c :: rest.take (next c rest).2⟩ := by
  unfold next IsSpelled
  by_cases hdollar : c = '$'
  · rw [if_pos hdollar]
    obtain ⟨hopening, hclosing, -⟩ := afterDollar_kind rest
    exact ⟨fun h => absurd h hopening, fun h => absurd h hclosing⟩
  by_cases hopening : c = '('
  · subst hopening
    simp
  by_cases hclosing : c = ')'
  · subst hclosing
    simp
  by_cases hcomma : c = ','
  · subst hcomma
    simp
  rw [if_neg hdollar, if_neg hopening, if_neg hclosing, if_neg hcomma]
  split <;> simp

/-- Parentheses among the lexemes of a text are spelled as such. -/
theorem isSpelled_of_mem_scan {s : List Char} : ∀ l ∈ scan s, IsSpelled l := by
  fun_induction scan s with
  | case1 => intro l hl; cases hl
  | case2 c rest kind count h ih =>
    intro l hl
    rcases List.mem_cons.1 hl with rfl | hl
    · have := isSpelled_next c rest
      rwa [h] at this
    · exact ih l hl

theorem Scanned.isSpelled {ls : List Lexeme} (h : Scanned ls) : ∀ l ∈ ls, IsSpelled l := by
  rw [← h]
  exact isSpelled_of_mem_scan

/-! ## Calls -/

/-- The depth behind a lexeme that does not close the call. -/
theorem untilClosing_cons {depth : Nat} {l : Lexeme} (h : l.kind = .closing → depth ≠ 0)
    (rest : List Lexeme) :
    untilClosing depth (l :: rest) =
      (untilClosing (depthAfter depth l) rest).map (fun (inner, after) => (l :: inner, after)) := by
  obtain ⟨kind, text⟩ := l
  cases kind with
  | closing =>
    cases depth with
    | zero => exact absurd rfl (h rfl)
    | succ depth => rfl
  | _ => rfl

theorem untilClosing_closing {l : Lexeme} (h : l.kind = .closing) (rest : List Lexeme) :
    untilClosing 0 (l :: rest) = some ([], rest) := by
  obtain ⟨kind, text⟩ := l
  cases h
  rfl

/-- What is between two matching parentheses, the closing one and what is after it are all of what
    follows the opening one, and what is after it does not matter. -/
theorem untilClosing_spec {depth : Nat} {ls inner after : List Lexeme}
    (h : untilClosing depth ls = some (inner, after)) :
    ∃ closing, closing.kind = .closing ∧ ls = inner ++ closing :: after ∧
      ∀ others, untilClosing depth (inner ++ closing :: others) = some (inner, others) := by
  induction ls generalizing depth inner after with
  | nil => cases h
  | cons l rest ih =>
    by_cases hlast : l.kind = .closing ∧ depth = 0
    · obtain ⟨hkind, rfl⟩ := hlast
      rw [untilClosing_closing hkind] at h
      obtain ⟨rfl, rfl⟩ := Prod.mk.inj (Option.some.inj h)
      exact ⟨l, hkind, rfl, untilClosing_closing hkind⟩
    · have hgoes : l.kind = .closing → depth ≠ 0 := fun hkind hdepth => hlast ⟨hkind, hdepth⟩
      rw [untilClosing_cons hgoes] at h
      obtain ⟨⟨i, a⟩, hi, he⟩ := Option.map_eq_some_iff.1 h
      obtain ⟨rfl, rfl⟩ := Prod.mk.inj he
      obtain ⟨closing, hkind, rfl, hothers⟩ := ih hi
      refine ⟨closing, hkind, rfl, fun others => ?_⟩
      rw [List.cons_append, untilClosing_cons hgoes, hothers, Option.map_some]

theorem callAfter?_spec {ls inner after : List Lexeme}
    (h : callAfter? ls = some (inner, after)) :
    ∃ opening closing, opening.kind = .opening ∧ closing.kind = .closing ∧
      ls = opening :: (inner ++ closing :: after) ∧
      ∀ others, callAfter? (opening :: (inner ++ closing :: others)) = some (inner, others) := by
  cases ls with
  | nil => cases h
  | cons l rest =>
    rw [callAfter?] at h
    split at h
    · next hkind =>
      obtain ⟨closing, hclosing, rfl, hothers⟩ := untilClosing_spec h
      refine ⟨l, closing, hkind, hclosing, rfl, fun others => ?_⟩
      rw [callAfter?, if_pos hkind, hothers]
    · cases h

/-- A name and the call that follows it are spelled like the call. -/
theorem join_of_callAfter? {ls inner after : List Lexeme} (hls : ∀ l ∈ ls, IsSpelled l)
    (h : callAfter? ls = some (inner, after)) :
    join ls = '(' :: (join inner ++ ')' :: join after) := by
  obtain ⟨opening, closing, hopening, hclosing, rfl, _⟩ := callAfter?_spec h
  have hfirst := (hls opening List.mem_cons_self).1 hopening
  have hlast := (hls closing (by simp)).2 hclosing
  rw [join_cons, join_append, join_cons, hfirst, hlast]
  rfl

/-- The contents of a call are lexemes of their own text. -/
theorem Scanned.inner {ls inner after : List Lexeme} (h : Scanned ls)
    (hcall : callAfter? ls = some (inner, after)) : Scanned inner := by
  obtain ⟨opening, closing, -, -, rfl, -⟩ := callAfter?_spec hcall
  exact h.tail.left

end Lexeme

namespace Segment

/-! ## Decidable equality -/

mutual

/-- Decides whether two segments are equal. -/
def decEq : (a b : Segment) → Decidable (a = b)
  | .text t, .text t' => if h : t = t' then isTrue (by rw [h]) else isFalse (by simp [h])
  | .reference name raw fallback, .reference name' raw' fallback' =>
    if h : name = name' ∧ raw = raw' then
      match decEqFallback fallback fallback' with
      | isTrue hf => isTrue (by rw [h.1, h.2, hf])
      | isFalse hf => isFalse (by simp [hf])
    else isFalse (fun heq => h ⟨(Segment.reference.inj heq).1, (Segment.reference.inj heq).2.1⟩)
  | .call name args raw, .call name' args' raw' =>
    if h : name = name' ∧ raw = raw' then
      match decEqArgs args args' with
      | isTrue ha => isTrue (by rw [h.1, h.2, ha])
      | isFalse ha => isFalse (by simp [ha])
    else isFalse (fun heq => h ⟨(Segment.call.inj heq).1, (Segment.call.inj heq).2.2⟩)
  | .text _, .reference _ _ _ | .text _, .call _ _ _
  | .reference _ _ _, .text _ | .reference _ _ _, .call _ _ _
  | .call _ _ _, .text _ | .call _ _ _, .reference _ _ _ => isFalse (by simp)
termination_by structural a => a

/-- Decides whether two fallbacks are equal. -/
def decEqFallback : (a b : Option (List Segment)) → Decidable (a = b)
  | none, none => isTrue rfl
  | some a, some b =>
    match decEqList a b with
    | isTrue h => isTrue (by rw [h])
    | isFalse h => isFalse (by simp [h])
  | none, some _ | some _, none => isFalse (by simp)
termination_by structural a => a

/-- Decides whether two lists of segments are equal. -/
def decEqList : (a b : List Segment) → Decidable (a = b)
  | [], [] => isTrue rfl
  | a :: rest, b :: rest' =>
    match decEq a b, decEqList rest rest' with
    | isTrue h, isTrue h' => isTrue (by rw [h, h'])
    | isFalse h, _ => isFalse (by simp [h])
    | _, isFalse h' => isFalse (by simp [h'])
  | [], _ :: _ | _ :: _, [] => isFalse (by simp)
termination_by structural a => a

/-- Decides whether two lists of arguments are equal. -/
def decEqArgs : (a b : List (List Segment)) → Decidable (a = b)
  | [], [] => isTrue rfl
  | a :: rest, b :: rest' =>
    match decEqList a b, decEqArgs rest rest' with
    | isTrue h, isTrue h' => isTrue (by rw [h, h'])
    | isFalse h, _ => isFalse (by simp [h])
    | _, isFalse h' => isFalse (by simp [h'])
  | [], _ :: _ | _ :: _, [] => isFalse (by simp)
termination_by structural a => a

end

instance : DecidableEq Segment := decEq

/-! ## The first segment -/

/-- One list of segments behind another one; texts that meet are one segment. -/
def append : List Segment → List Segment → List Segment
  | [], after => after
  | .text t :: rest, after => pushText t (append rest after)
  | s :: rest, after => s :: append rest after

theorem pushText_pushText (t u : String) (segments : List Segment) :
    pushText t (pushText u segments) = pushText (t ++ u) segments := by
  cases segments with
  | nil => rfl
  | cons s rest =>
    cases s with
    | text v => simp only [pushText, String.append_assoc]
    | reference name raw fallback => rfl
    | call name args raw => rfl

theorem append_of_not_text {s : Segment} (h : s.isText = false) (after : List Segment) :
    append [s] after = s :: after := by
  cases s with
  | text t => cases h
  | reference name raw fallback => rfl
  | call name args raw => rfl

/-- The first segment of a list of lexemes, not yet joined with a text behind it, and the lexemes
    behind it. -/
def first (isFunction : String → Bool) (l : Lexeme) (rest : List Lexeme) :
    Segment × List Lexeme :=
  match l.kind with
  | .reference => (.reference (String.ofList (l.text.drop 1)) (String.ofList l.text) none, rest)
  | .braced =>
    if (bracedName l.text).isEmpty then (.text (String.ofList l.text), rest)
    else (.reference (String.ofList (bracedName l.text)) (String.ofList l.text) none, rest)
  | .name =>
    match Lexeme.callAfter? rest with
    | some (inner, after) =>
      if l.text = variableFunction then
        match variableName? (Lexeme.cutComma 0 inner).1 with
        | some name =>
          (.reference name (callText l.text inner)
            ((Lexeme.cutComma 0 inner).2.map (fun others => trim (ofLexemes isFunction others))),
            after)
        | none => (.text (callText l.text inner), after)
      else if isFunction (String.ofList l.text) then
        (.call (String.ofList l.text) ((Lexeme.arguments inner).map (ofLexemes isFunction))
          (callText l.text inner), after)
      else (.text (String.ofList l.text), rest)
    | none => (.text (String.ofList l.text), rest)
  | _ => (.text (String.ofList l.text), rest)

/-- Segments are read off one by one. -/
theorem ofLexemes_cons (isFunction : String → Bool) (l : Lexeme) (rest : List Lexeme) :
    ofLexemes isFunction (l :: rest) =
      append [(first isFunction l rest).1] (ofLexemes isFunction (first isFunction l rest).2) := by
  rw [ofLexemes]
  split
  · next hkind =>
    simp only [first, hkind]
    rfl
  · next hkind =>
    simp only [first, hkind]
    split <;> rfl
  · next hkind =>
    simp only [first, hkind]
    split
    · next inner after hcall =>
      simp only [hcall]
      split
      · cases variableName? (Lexeme.cutComma 0 inner).1 with
        | some name =>
          dsimp only
          split
          · next others hothers => rw [hothers]; rfl
          · next hothers => rw [hothers]; rfl
        | none => rfl
      · split
        · simp only [List.map_attach_eq_pmap, List.pmap_eq_map]
          rfl
        · rfl
    · next hcall =>
      simp only [hcall]
      rfl
  · next hreference hbraced hname =>
    have hfirst : first isFunction l rest = (.text (String.ofList l.text), rest) := by
      unfold first
      split
      · next hkind => exact absurd hkind hreference
      · next hkind => exact absurd hkind hbraced
      · next hkind => exact absurd hkind hname
      · rfl
    rw [hfirst]
    rfl

@[simp] theorem ofLexemes_nil (isFunction : String → Bool) : ofLexemes isFunction [] = [] := by
  rw [ofLexemes]

/-- The first segment takes the lexemes up to those that are left. What is left does not matter for
    a reference or call, which ends with a lexeme that is no plain text. -/
theorem first_spec (isFunction : String → Bool) (l : Lexeme) (rest : List Lexeme) :
    ∃ used, rest = used ++ (first isFunction l rest).2 ∧
      ((first isFunction l rest).1.isText = false →
        (∀ others,
          first isFunction l (used ++ others) = ((first isFunction l rest).1, others)) ∧
        ∀ last, (l :: used).getLast? = some last → last.kind ≠ .other) := by
  cases hkind : l.kind with
  | reference =>
    refine ⟨[], ?_, fun _ => ⟨fun others => ?_, fun last hlast => ?_⟩⟩
    · simp only [first, hkind, List.nil_append]
    · simp only [first, hkind, List.nil_append]
    · cases hlast
      simp [hkind]
  | braced =>
    refine ⟨[], ?_, fun _ => ⟨fun others => ?_, fun last hlast => ?_⟩⟩
    · simp only [first, hkind, List.nil_append]
      split <;> rfl
    · simp only [first, hkind, List.nil_append]
      split <;> rfl
    · cases hlast
      simp [hkind]
  | name =>
    cases hcall : Lexeme.callAfter? rest with
    | none =>
      simp only [first, hkind, hcall]
      exact ⟨[], rfl, fun h => by cases h⟩
    | some found =>
      obtain ⟨inner, after⟩ := found
      obtain ⟨opening, closing, _, hclosing, hrest, hothers⟩ := Lexeme.callAfter?_spec hcall
      have hused : rest = (opening :: (inner ++ [closing])) ++ after := by
        rw [hrest]
        simp
      have hagain : ∀ others, Lexeme.callAfter? ((opening :: (inner ++ [closing])) ++ others) =
          some (inner, others) := by
        intro others
        rw [List.cons_append, List.append_assoc]
        exact hothers others
      -- A call ends with its closing parenthesis.
      have hlast : ∀ last, (l :: opening :: (inner ++ [closing])).getLast? = some last →
          last.kind ≠ .other := by
        intro last hlast
        rw [List.getLast?_cons_cons, ← List.cons_append, List.getLast?_concat] at hlast
        cases hlast
        simp [hclosing]
      simp only [first, hkind, hcall]
      split
      · next hvar =>
        split
        · next name hname =>
          refine ⟨_, hused, fun _ => ⟨fun others => ?_, hlast⟩⟩
          simp only [hagain, hvar, hname]
        · exact ⟨_, hused, fun h => by cases h⟩
      · next hvar =>
        split
        · next hfunction =>
          refine ⟨_, hused, fun _ => ⟨fun others => ?_, hlast⟩⟩
          simp only [hagain]
        · exact ⟨[], rfl, fun h => by cases h⟩
  | opening => simp only [first, hkind]; exact ⟨[], rfl, fun h => by cases h⟩
  | closing => simp only [first, hkind]; exact ⟨[], rfl, fun h => by cases h⟩
  | comma => simp only [first, hkind]; exact ⟨[], rfl, fun h => by cases h⟩
  | other => simp only [first, hkind]; exact ⟨[], rfl, fun h => by cases h⟩

/-- What is left behind the first segment is the end of the lexemes. -/
theorem first_suffix (isFunction : String → Bool) (l : Lexeme) (rest : List Lexeme) :
    (first isFunction l rest).2 <:+ rest := by
  obtain ⟨used, hused, _⟩ := first_spec isFunction l rest
  exact ⟨used, hused.symm⟩

/-- The first segment is spelled by the lexemes that it takes. -/
theorem raw_first (isFunction : String → Bool) {l : Lexeme} {rest : List Lexeme}
    (hrest : ∀ r ∈ rest, r.IsSpelled) :
    (first isFunction l rest).1.raw ++ String.ofList (Lexeme.join (first isFunction l rest).2) =
      String.ofList (Lexeme.join (l :: rest)) := by
  have hone : String.ofList l.text ++ String.ofList (Lexeme.join rest) =
      String.ofList (Lexeme.join (l :: rest)) := by
    rw [Lexeme.join_cons, String.ofList_append]
  have hcalled : ∀ inner after, Lexeme.callAfter? rest = some (inner, after) →
      callText l.text inner ++ String.ofList (Lexeme.join after) =
        String.ofList (Lexeme.join (l :: rest)) := by
    intro inner after hcall
    rw [Lexeme.join_cons, Lexeme.join_of_callAfter? hrest hcall, callText, ← String.ofList_append]
    simp
  unfold first
  split
  · exact hone
  · split <;> exact hone
  · split
    · next inner after hcall =>
      split
      · split <;> exact hcalled inner after hcall
      · split
        · exact hcalled inner after hcall
        · exact hone
    · exact hone
  · exact hone

/-! ## Spelling -/

theorem rawOf_cons (s : Segment) (rest : List Segment) : rawOf (s :: rest) = s.raw ++ rawOf rest :=
  String.join_cons

theorem rawOf_nil_append (t : String) : rawOf [] ++ t = t := String.empty_append

theorem rawOf_singleton (s : Segment) : rawOf [s] = s.raw := by
  rw [rawOf_cons]
  exact String.append_empty

theorem rawOf_pushText (t : String) (segments : List Segment) :
    rawOf (pushText t segments) = t ++ rawOf segments := by
  unfold pushText
  split
  · rw [rawOf_cons, rawOf_cons]
    exact String.append_assoc
  · rw [rawOf_cons]
    rfl

theorem rawOf_append (a b : List Segment) : rawOf (append a b) = rawOf a ++ rawOf b := by
  induction a with
  | nil => exact String.empty_append.symm
  | cons s rest ih =>
    rw [rawOf_cons, String.append_assoc, ← ih]
    cases s with
    | text t => exact rawOf_pushText t _
    | reference name raw fallback => exact rawOf_cons _ _
    | call name args raw => exact rawOf_cons _ _

theorem rawOf_ofLexemes (isFunction : String → Bool) :
    ∀ {ls : List Lexeme}, (∀ l ∈ ls, l.IsSpelled) →
      rawOf (ofLexemes isFunction ls) = String.ofList (Lexeme.join ls)
  | [], _ => by rw [ofLexemes_nil]; rfl
  | l :: rest, h => by
    have hrest : ∀ r ∈ rest, r.IsSpelled := fun r hr => h r (List.mem_cons_of_mem l hr)
    have hsuffix := first_suffix isFunction l rest
    have hlength := hsuffix.length_le
    have hleft : ∀ r ∈ (first isFunction l rest).2, r.IsSpelled :=
      fun r hr => hrest r (hsuffix.subset hr)
    rw [ofLexemes_cons, rawOf_append, rawOf_ofLexemes isFunction hleft, rawOf_cons,
      ← raw_first isFunction hrest]
    simp [rawOf]
termination_by ls => ls.length
decreasing_by simp only [List.length_cons]; omega

/-- **Nothing of a text is lost when it is read.** -/
theorem rawOf_parse (isFunction : String → Bool) (text : String) :
    rawOf (parse isFunction text) = text := by
  rw [parse, rawOf_ofLexemes isFunction Lexeme.isSpelled_of_mem_scan, Lexeme.join_scan,
    String.ofList_toList]

/-! ## Spellings are read back -/

/-- Whether the spelling of a segment is read as the segment, also in front of a text that starts
    apart. -/
def Stands (isFunction : String → Bool) (s : Segment) : Prop :=
  ∀ behind : String, Lexeme.StartsApart behind.toList →
    parse isFunction (s.raw ++ behind) = s :: parse isFunction behind

theorem parse_empty (isFunction : String → Bool) : parse isFunction "" = [] := by
  rw [parse, String.toList_empty, Lexeme.scan_nil, ofLexemes_nil]

theorem Stands.parse_raw {isFunction : String → Bool} {s : Segment} (h : s.Stands isFunction) :
    parse isFunction s.raw = [s] := by
  have hread := h "" Lexeme.startsApart_nil
  rwa [String.append_empty, parse_empty] at hread

/-- The first segment is spelled by the lexemes in front of those that are left. -/
theorem raw_first_used (isFunction : String → Bool) {l : Lexeme} {rest used : List Lexeme}
    (hrest : ∀ r ∈ rest, r.IsSpelled) (hused : rest = used ++ (first isFunction l rest).2) :
    (first isFunction l rest).1.raw = String.ofList (Lexeme.join (l :: used)) := by
  have hspelled := raw_first isFunction (l := l) hrest
  have hlexemes : l :: rest = (l :: used) ++ (first isFunction l rest).2 := by
    rw [List.cons_append, ← hused]
  rw [hlexemes, Lexeme.join_append, String.ofList_append] at hspelled
  exact (String.append_left_inj _).1 hspelled

/-- **The spelling of a reference or call is read as the reference or call.** -/
theorem stands_first (isFunction : String → Bool) {l : Lexeme} {rest : List Lexeme}
    (hscanned : Lexeme.Scanned (l :: rest))
    (htext : (first isFunction l rest).1.isText = false) :
    (first isFunction l rest).1.Stands isFunction := by
  intro behind hbehind
  obtain ⟨used, hused, hspec⟩ := first_spec isFunction l rest
  obtain ⟨hothers, hlast⟩ := hspec htext
  have hlexemes : (l :: used) ++ (first isFunction l rest).2 = l :: rest := by
    rw [List.cons_append, ← hused]
  have hraw := raw_first_used isFunction hscanned.tail.isSpelled hused
  -- The last lexeme of the spelling is no plain text, so nothing behind it is joined to it.
  have hscan : Lexeme.scan (Lexeme.join (l :: used) ++ behind.toList) =
      (l :: used) ++ Lexeme.scan behind.toList := by
    rw [← hlexemes] at hscanned
    exact hscanned.left.append hlast hbehind
  rw [hraw, parse, String.toList_append, String.toList_ofList, hscan, List.cons_append,
    ofLexemes_cons, hothers, append_of_not_text htext]
  rfl

mutual

/-- Whether the spelling of a reference or call is read as that, also in fallbacks. -/
def IsSpelled (isFunction : String → Bool) : Segment → Prop
  | .text _ => True
  | .reference name raw fallback =>
    (Segment.reference name raw fallback).Stands isFunction ∧
      FallbackIsSpelled isFunction fallback
  | .call name args raw => (Segment.call name args raw).Stands isFunction
termination_by structural s => s

/-- The same for what is in a fallback. -/
def FallbackIsSpelled (isFunction : String → Bool) : Option (List Segment) → Prop
  | none => True
  | some segments => AllSpelled isFunction segments
termination_by structural f => f

/-- The same for every segment of a list. -/
def AllSpelled (isFunction : String → Bool) : List Segment → Prop
  | [] => True
  | s :: rest => s.IsSpelled isFunction ∧ AllSpelled isFunction rest
termination_by structural segments => segments

end

theorem IsSpelled.stands {isFunction : String → Bool} {s : Segment} (h : s.IsSpelled isFunction)
    (htext : s.isText = false) : s.Stands isFunction := by
  cases s with
  | text t => cases htext
  | reference name raw fallback => exact h.1
  | call name args raw => exact h

theorem allSpelled_iff {isFunction : String → Bool} {segments : List Segment} :
    AllSpelled isFunction segments ↔ ∀ s ∈ segments, s.IsSpelled isFunction := by
  induction segments with
  | nil => simp [AllSpelled]
  | cons s rest ih => rw [AllSpelled, ih, List.forall_mem_cons]

theorem mem_pushText {t : String} {segments : List Segment} {s : Segment}
    (h : s ∈ pushText t segments) : s ∈ segments ∨ s.isText = true := by
  unfold pushText at h
  split at h
  · rcases List.mem_cons.1 h with rfl | h
    · exact Or.inr rfl
    · exact Or.inl (List.mem_cons_of_mem _ h)
  · rcases List.mem_cons.1 h with rfl | h
    · exact Or.inr rfl
    · exact Or.inl h

theorem mem_trimFirst {segments : List Segment} {s : Segment} (h : s ∈ trimFirst segments) :
    s ∈ segments ∨ s.isText = true := by
  unfold trimFirst at h
  split at h
  · rcases List.mem_cons.1 h with rfl | h
    · exact Or.inr rfl
    · exact Or.inl (List.mem_cons_of_mem _ h)
  · exact Or.inl h

theorem mem_trimLast {segments : List Segment} {s : Segment} (h : s ∈ trimLast segments) :
    s ∈ segments ∨ s.isText = true := by
  fun_induction trimLast segments with
  | case1 => cases h
  | case2 t =>
    rw [List.mem_singleton.1 h]
    exact Or.inr rfl
  | case3 s' rest hne ih =>
    rcases List.mem_cons.1 h with rfl | h
    · exact Or.inl List.mem_cons_self
    · exact (ih h).imp_left (List.mem_cons_of_mem _)

/-- Trimming changes only texts. -/
theorem mem_trim {segments : List Segment} {s : Segment} (h : s ∈ trim segments) :
    s ∈ segments ∨ s.isText = true := by
  rcases mem_trimLast (List.mem_filter.1 h).1 with h | htext
  · exact mem_trimFirst h
  · exact Or.inr htext

theorem isSpelled_of_isText {isFunction : String → Bool} {s : Segment} (h : s.isText = true) :
    s.IsSpelled isFunction := by
  cases s with
  | text t => trivial
  | reference name raw fallback => cases h
  | call name args raw => cases h

theorem mem_append {a b : List Segment} {s : Segment} (h : s ∈ append a b) :
    s ∈ a ∨ s ∈ b ∨ s.isText = true := by
  induction a with
  | nil => exact Or.inr (Or.inl h)
  | cons s' rest ih =>
    have hbelow : s ∈ append rest b → s ∈ s' :: rest ∨ s ∈ b ∨ s.isText = true :=
      fun hmem => (ih hmem).imp_left (List.mem_cons_of_mem s')
    cases s' with
    | text t =>
      rcases mem_pushText h with h | htext
      · exact hbelow h
      · exact Or.inr (Or.inr htext)
    | reference name raw fallback =>
      rcases List.mem_cons.1 h with rfl | h
      · exact Or.inl List.mem_cons_self
      · exact hbelow h
    | call name args raw =>
      rcases List.mem_cons.1 h with rfl | h
      · exact Or.inl List.mem_cons_self
      · exact hbelow h

theorem allSpelled_append {isFunction : String → Bool} {a b : List Segment}
    (ha : AllSpelled isFunction a) (hb : AllSpelled isFunction b) :
    AllSpelled isFunction (append a b) := by
  rw [allSpelled_iff] at ha hb ⊢
  intro s hs
  rcases mem_append hs with hmem | hmem | htext
  · exact ha s hmem
  · exact hb s hmem
  · exact isSpelled_of_isText htext

theorem allSpelled_trim {isFunction : String → Bool} {segments : List Segment}
    (h : AllSpelled isFunction segments) : AllSpelled isFunction (trim segments) := by
  rw [allSpelled_iff] at h ⊢
  intro s hs
  rcases mem_trim hs with hmem | htext
  · exact h s hmem
  · exact isSpelled_of_isText htext

end Segment

/-- What follows the first comma is the end of the lexemes. -/
theorem Lexeme.cutComma_suffix {depth : Nat} {ls others : List Lexeme}
    (h : (cutComma depth ls).2 = some others) : others <:+ ls := by
  induction ls generalizing depth with
  | nil => cases h
  | cons l ls ih =>
    simp only [cutComma] at h
    split at h
    · cases h
      exact List.suffix_cons l others
    · exact (ih h).trans (List.suffix_cons l ls)

namespace Segment

/-- The fallback of a reference is what follows the first comma in its parentheses. -/
theorem fallback_first {isFunction : String → Bool} {l : Lexeme} {rest : List Lexeme}
    {name raw : String} {segments : List Segment}
    (h : (first isFunction l rest).1 = .reference name raw (some segments)) :
    ∃ inner after others, Lexeme.callAfter? rest = some (inner, after) ∧
      (Lexeme.cutComma 0 inner).2 = some others ∧
      segments = trim (ofLexemes isFunction others) := by
  unfold first at h
  split at h
  · cases h
  · split at h <;> cases h
  · split at h
    · next inner after hcall =>
      split at h
      · split at h
        · obtain ⟨-, -, hfallback⟩ := Segment.reference.inj h
          obtain ⟨others, hothers, rfl⟩ := Option.map_eq_some_iff.1 hfallback
          exact ⟨inner, after, others, hcall, hothers, rfl⟩
        · cases h
      · split at h <;> cases h
    · cases h
  · cases h

/-- **References and calls are spelled so that they are read back.** -/
theorem allSpelled_ofLexemes (isFunction : String → Bool) : ∀ {ls : List Lexeme},
    Lexeme.Scanned ls → AllSpelled isFunction (ofLexemes isFunction ls)
  | [], _ => by rw [ofLexemes_nil]; trivial
  | l :: rest, h => by
    have hsuffix := first_suffix isFunction l rest
    have hlength := hsuffix.length_le
    rw [ofLexemes_cons]
    refine allSpelled_append ⟨?_, trivial⟩
      (allSpelled_ofLexemes isFunction (h.tail.suffix hsuffix))
    cases hfirst : (first isFunction l rest).1 with
    | text t => trivial
    | call name args raw =>
      have hstands := stands_first isFunction h (by rw [hfirst]; rfl)
      rw [hfirst] at hstands
      exact hstands
    | reference name raw fallback =>
      refine ⟨?_, ?_⟩
      · have hstands := stands_first isFunction h (by rw [hfirst]; rfl)
        rw [hfirst] at hstands
        exact hstands
      · cases fallback with
        | none => trivial
        | some segments =>
          obtain ⟨inner, after, others, hcall, hothers, rfl⟩ := fallback_first hfirst
          -- The fallback is read from lexemes inside the parentheses, which are scanned, too.
          have hcomma := Lexeme.cutComma_suffix hothers
          have hshort := hcomma.length_le
          have hlong := Lexeme.length_callAfter? hcall
          have hinner := h.tail.inner hcall
          exact allSpelled_trim (allSpelled_ofLexemes isFunction (hinner.suffix hcomma))
termination_by ls => ls.length
decreasing_by all_goals simp only [List.length_cons]; omega

/-- The references and calls of a text are read back from their spellings. -/
theorem allSpelled_parse (isFunction : String → Bool) (text : String) :
    AllSpelled isFunction (parse isFunction text) :=
  allSpelled_ofLexemes isFunction (Lexeme.scanned_scan _)

end Segment

end Theming
