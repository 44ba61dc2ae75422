import Theming.Proofs.Token.Splicing

set_option autoImplicit false

/-! # Texts that are set apart

A text that is put together is not always read as its parts: with `$c` in the place of `${b}`, the
text `${b}x` becomes a reference to `cx`. Here are conditions on the parts under which nothing like
this happens: plain text holds nothing that could become a reference or call (`IsPlain`), and plain
text stands between references and calls, so that no name runs into another one (`SetApart`).
`parse_rawOf` is the main result, and `setApart_append` says that the conditions last. -/

namespace Theming

namespace Lexeme

/-! ## Plain text -/

/-- Whether a name in front of parentheses makes a call. -/
def isCallable (isFunction : String → Bool) (name : List Char) : Bool :=
  name == Segment.variableFunction || isFunction (String.ofList name)

/-- Whether a character goes on a name, or starts one if there is none. -/
def goesOn (name : List Char) (c : Char) : Bool :=
  if name.isEmpty then isNameStart c else isNameChar c

/-- The name that a text ends with, if the text follows a name; nothing if the text holds a dollar
    sign or a call. -/
def nameAfter? (isFunction : String → Bool) : List Char → List Char → Option (List Char)
  | name, [] => some name
  | name, c :: rest =>
    if c = '$' then none
    else if c = '(' ∧ name ≠ [] ∧ isCallable isFunction name = true then none
    else if goesOn name c = true then nameAfter? isFunction (name ++ [c]) rest
    else nameAfter? isFunction [] rest

variable {isFunction : String → Bool}

theorem goesOn_of_not_name {c : Char} (h : isNameChar c = false) (name : List Char) :
    ¬ goesOn name c = true := by
  have hstart : isNameStart c = false := by
    cases hstart : isNameStart c with
    | false => rfl
    | true =>
      rw [isNameChar_of_start hstart] at h
      cases h
  rw [goesOn, hstart, h, ite_self]
  exact Bool.false_ne_true

/-- A name in plain text is not called. -/
theorem not_callable_of_isSome {c : Char} {name t : List Char} (hne : name ≠ [])
    (h : (nameAfter? isFunction name (c :: t)).isSome = true) (hc : c = '(') :
    isCallable isFunction name = false := by
  cases hcallable : isCallable isFunction name with
  | false => rfl
  | true =>
    subst hc
    rw [nameAfter?, if_neg (by decide), if_pos ⟨rfl, hne, hcallable⟩] at h
    cases h

/-- Plain text that does not go on with a name does not depend on the name. -/
theorem nameAfter?_of_not_name {c : Char} (hc : isNameChar c = false) {name t : List Char}
    (h : (nameAfter? isFunction name (c :: t)).isSome = true) :
    nameAfter? isFunction name (c :: t) = nameAfter? isFunction [] (c :: t) := by
  have hempty : ¬ (c = '(' ∧ [] ≠ ([] : List Char) ∧ isCallable isFunction [] = true) :=
    fun hcall => hcall.2.1 rfl
  rw [nameAfter?] at h ⊢
  rw [nameAfter?, if_neg (goesOn_of_not_name hc name), if_neg (goesOn_of_not_name hc []),
    if_neg hempty]
  rw [if_neg (goesOn_of_not_name hc name)] at h
  split
  · rfl
  · next hdollar =>
    rw [if_neg hdollar] at h
    split
    · next hcall =>
      rw [if_pos hcall] at h
      cases h
    · rfl

theorem nameAfter?_append (name s t : List Char) :
    nameAfter? isFunction name (s ++ t) =
      (nameAfter? isFunction name s).bind (fun name' => nameAfter? isFunction name' t) := by
  induction s generalizing name with
  | nil => rfl
  | cons c s ih =>
    rw [List.cons_append, nameAfter?, nameAfter?]
    split
    · rfl
    · split
      · rfl
      · split
        · exact ih _
        · exact ih _

/-- What a name is followed by does not depend on it if it starts apart. -/
theorem nameAfter?_of_startsApart {c : Char} {t : List Char} (h : StartsApart (c :: t))
    (name : List Char) :
    nameAfter? isFunction name (c :: t) = nameAfter? isFunction [] (c :: t) := by
  obtain ⟨hname, _, hopening⟩ := h.head
  have hcall : ∀ name, ¬ (c = '(' ∧ name ≠ [] ∧ isCallable isFunction name = true) :=
    fun name h => hopening h.1
  rw [nameAfter?, nameAfter?, if_neg (goesOn_of_not_name hname name),
    if_neg (goesOn_of_not_name hname []), if_neg (hcall name), if_neg (hcall [])]

theorem nameAfter?_names {name : List Char} (hne : name ≠ []) {s : List Char}
    (hs : s.all isNameChar = true) (t : List Char) :
    nameAfter? isFunction name (s ++ t) = nameAfter? isFunction (name ++ s) t := by
  induction s generalizing name with
  | nil => rw [List.append_nil, List.nil_append]
  | cons c s ih =>
    rw [List.all_cons, Bool.and_eq_true] at hs
    have hdollar : c ≠ '$' := by
      rintro rfl
      exact absurd hs.1 (by decide)
    have hopening : c ≠ '(' := by
      rintro rfl
      exact absurd hs.1 (by decide)
    have hgoes : goesOn name c = true := by
      rw [goesOn, if_neg (fun h => hne (List.isEmpty_iff.1 h))]
      exact hs.1
    have hmore : name ++ [c] ≠ [] := by simp
    rw [List.cons_append, nameAfter?, if_neg hdollar, if_neg (fun h => hopening h.1), if_pos hgoes,
      ih hmore hs.2, List.append_assoc]
    rfl

end Lexeme

namespace Segment

open Lexeme (StartsApart nameAfter? nameAfter?_names nameAfter?_of_not_name not_callable_of_isSome
  goesOn isCallable isNameStart isNameChar isOther next scan scan_cons)

variable {isFunction : String → Bool}

/-- The lexemes of a text are read as text if the first one is no reference and no call. -/
theorem ofLexemes_text {l : Lexeme} {rest : List Lexeme}
    (h : first isFunction l rest = (.text (String.ofList l.text), rest)) :
    ofLexemes isFunction (l :: rest) = pushText (String.ofList l.text) (ofLexemes isFunction rest) := by
  rw [ofLexemes_cons, h]
  rfl

theorem take_takeWhile_length (p : Char → Bool) (s : List Char) :
    s.take (s.takeWhile p).length = s.takeWhile p :=
  (List.prefix_iff_eq_take.1 (List.takeWhile_prefix p)).symm

theorem drop_takeWhile_length (p : Char → Bool) (s : List Char) :
    s.drop (s.takeWhile p).length = s.dropWhile p :=
  (congrArg (List.drop _) List.takeWhile_append_dropWhile.symm).trans List.drop_left

theorem ofLexemes_other {c : Char} (h : isOther c = true) (s : List Char) :
    ofLexemes isFunction (scan (c :: s)) =
      pushText (String.ofList (c :: s.takeWhile isOther))
        (ofLexemes isFunction (scan (s.dropWhile isOther))) := by
  have hnext : next c s = (.other, (s.takeWhile isOther).length) := by
    simp only [isOther, Bool.and_eq_true, Bool.not_eq_true', bne_iff_ne] at h
    obtain ⟨⟨⟨⟨hname, hdollar⟩, hopening⟩, hclosing⟩, hcomma⟩ := h
    simp [next, hname, hdollar, hopening, hclosing, hcomma]
  rw [scan_cons, hnext]
  simp only [take_takeWhile_length, drop_takeWhile_length]
  exact ofLexemes_text rfl

/-- A character that starts no name and no reference is read on its own. -/
theorem ofLexemes_char {c : Char} (hname : isNameStart c = false) (hdollar : c ≠ '$')
    (s : List Char) :
    ofLexemes isFunction (scan (c :: s)) =
      pushText (String.ofList [c]) (ofLexemes isFunction (scan s)) := by
  cases hother : isOther c with
  | true =>
    rw [ofLexemes_other hother]
    cases s with
    | nil => rfl
    | cons d s =>
      cases hd : isOther d with
      | true =>
        rw [ofLexemes_other hd, pushText_pushText, ← String.ofList_append, List.takeWhile_cons,
          List.dropWhile_cons, if_pos hd, if_pos hd]
        rfl
      | false =>
        have hstop : ¬ isOther d = true := Bool.eq_false_iff.1 hd
        rw [List.takeWhile_cons, List.dropWhile_cons, if_neg hstop, if_neg hstop]
  | false =>
    have hmark : c = '(' ∨ c = ')' ∨ c = ',' := by
      simpa [isOther, hname, hdollar, Decidable.or_iff_not_imp_left] using hother
    rw [scan_cons]
    rcases hmark with rfl | rfl | rfl
    · exact ofLexemes_text rfl
    · exact ofLexemes_text rfl
    · exact ofLexemes_text rfl

theorem opening_of_callAfter? {t : List Char} {inner after : List Lexeme}
    (h : Lexeme.callAfter? (scan t) = some (inner, after)) : t.head? = some '(' := by
  cases t with
  | nil =>
    rw [Lexeme.scan_nil] at h
    cases h
  | cons c t =>
    rw [scan_cons] at h
    obtain ⟨opening, closing, hkind, _, hlexemes, _⟩ := Lexeme.callAfter?_spec h
    have hspelled := (Lexeme.isSpelled_next c t).1
    rw [(List.cons.inj hlexemes).1] at hspelled
    have htext := hspelled hkind
    rw [← (List.cons.inj hlexemes).1] at htext
    exact congrArg some (List.cons.inj htext).1

/-- A name that is followed by no name character and makes no call is read as text. -/
theorem ofLexemes_name {c : Char} (hc : isNameStart c = true) {s t : List Char}
    (hs : s.all isNameChar = true) (ht : t.head?.any isNameChar = false)
    (hcall : t.head? = some '(' → isCallable isFunction (c :: s) = false) :
    ofLexemes isFunction (scan (c :: (s ++ t))) =
      pushText (String.ofList (c :: s)) (ofLexemes isFunction (scan t)) := by
  have hall : (s ++ t).takeWhile isNameChar = s := by
    rw [Lexeme.takeWhile_append_left (Or.inl ht)]
    have hself := @List.takeWhile_append_of_pos _ _ s [] (List.all_eq_true.1 hs)
    rwa [List.takeWhile_nil, List.append_nil] at hself
  have hnext : next c (s ++ t) = (.name, s.length) := by
    have hmarks : c ≠ '$' ∧ c ≠ '(' ∧ c ≠ ')' ∧ c ≠ ',' := by
      refine ⟨?_, ?_, ?_, ?_⟩ <;> (rintro rfl; exact absurd hc (by decide))
    simp [next, hmarks, hc, hall]
  rw [scan_cons, hnext]
  simp only [List.take_left, List.drop_left]
  refine ofLexemes_text ?_
  simp only [first]
  split
  · next inner after hcalled =>
    have hnot := hcall (opening_of_callAfter? hcalled)
    simp only [isCallable, Bool.or_eq_false_iff, beq_eq_false_iff_ne] at hnot
    rw [if_neg hnot.1, if_neg (Bool.eq_false_iff.1 hnot.2)]
  · rfl

/-- **Plain text is read as text**, whatever is behind it: either it ends apart, or what is behind it
    starts apart. -/
theorem ofLexemes_plain : ∀ {s t : List Char}, s ≠ [] →
    (nameAfter? isFunction [] s).isSome = true →
    (nameAfter? isFunction [] s = some [] ∨ StartsApart t) →
    ofLexemes isFunction (scan (s ++ t)) =
      pushText (String.ofList s) (ofLexemes isFunction (scan t))
  | [], _, hne, _, _ => absurd rfl hne
  | c :: s, t, _, hplain, hseam => by
    have hdollar : c ≠ '$' := by
      rintro rfl
      cases hplain
    cases hname : isNameStart c with
    | false =>
      -- The character is read on its own.
      have hskip : nameAfter? isFunction [] (c :: s) = nameAfter? isFunction [] s := by
        have hgoes : ¬ goesOn [] c = true := Bool.eq_false_iff.1 hname
        rw [nameAfter?, if_neg hdollar, if_neg (fun h => h.2.1 rfl), if_neg hgoes]
      rw [hskip] at hplain hseam
      rw [List.cons_append, ofLexemes_char hname hdollar]
      cases s with
      | nil => rfl
      | cons d s =>
        rw [ofLexemes_plain (List.cons_ne_nil d s) hplain hseam, pushText_pushText,
          ← String.ofList_append]
        rfl
    | true =>
      -- The name that the character starts is read as a whole.
      have hall : (s.takeWhile isNameChar).all isNameChar = true := List.all_takeWhile
      have hsplit := @List.takeWhile_append_dropWhile _ isNameChar s
      have hwhole : nameAfter? isFunction [] (c :: s) =
          nameAfter? isFunction (c :: s.takeWhile isNameChar) (s.dropWhile isNameChar) := by
        have hopening : c ≠ '(' := by
          rintro rfl
          exact absurd hname (by decide)
        have hgoes : goesOn [] c = true := hname
        rw [nameAfter?, if_neg hdollar, if_neg (fun h => hopening h.1), if_pos hgoes, ← hsplit,
          List.nil_append, nameAfter?_names (List.cons_ne_nil c []) hall, hsplit]
        rfl
      have hshort : (s.dropWhile isNameChar).length ≤ s.length :=
        (List.dropWhile_suffix isNameChar).length_le
      have htext : c :: s ++ t =
          c :: (s.takeWhile isNameChar ++ (s.dropWhile isNameChar ++ t)) := by
        rw [← List.append_assoc, hsplit]
        rfl
      rw [hwhole] at hplain hseam
      rw [htext]
      cases hrest : s.dropWhile isNameChar with
      | nil =>
        rw [hrest] at hseam hsplit
        have ht : StartsApart t := by
          rcases hseam with hends | ht
          · cases hends
          · exact ht
        rw [List.append_nil] at hsplit
        rw [List.nil_append, ofLexemes_name hname hall ht.head_any, hsplit]
        intro hhead
        cases t with
        | nil => cases hhead
        | cons d t => exact absurd (Option.some.inj hhead) ht.head.2.2
      | cons d r =>
        have hd : isNameChar d = false := by
          have hhead := List.head?_dropWhile_not isNameChar s
          rwa [hrest] at hhead
        rw [hrest] at hplain hseam hsplit hshort
        have hlt : (d :: r).length < (c :: s).length := Nat.lt_succ_of_le hshort
        have hcall := not_callable_of_isSome (List.cons_ne_nil c _) hplain
        have hskip := nameAfter?_of_not_name hd hplain
        rw [hskip] at hplain hseam
        have hstops : (d :: r ++ t).head?.any isNameChar = false := hd
        rw [ofLexemes_name hname hall hstops (fun hhead => hcall (Option.some.inj hhead)),
          ofLexemes_plain (List.cons_ne_nil d r) hplain hseam, pushText_pushText,
          ← String.ofList_append, List.cons_append, hsplit]
termination_by s => s.length
decreasing_by
  · subst_vars
    exact Nat.lt_succ_self _
  · exact hlt

/-! ## Lists that are set apart -/

/-- Whether a text is not empty and holds nothing that could become a reference or call. -/
def IsPlain (isFunction : String → Bool) (t : String) : Prop :=
  t ≠ "" ∧ (nameAfter? isFunction [] t.toList).isSome = true

/-- Whether plain text does not end with a name. -/
def EndsApart (isFunction : String → Bool) (t : String) : Prop :=
  nameAfter? isFunction [] t.toList = some []

/-- Whether segments can follow a reference or call: they start with a text that starts apart. -/
def FollowsApart : List Segment → Prop
  | [] => True
  | .text t :: _ => StartsApart t.toList
  | _ => False

/-- Whether plain text stands between references and calls, and no name runs into another one. -/
def SetApart (isFunction : String → Bool) : List Segment → Prop
  | [] => True
  | .text t :: rest =>
    IsPlain isFunction t ∧
      (rest = [] ∨ EndsApart isFunction t ∧ rest.head?.all (!isText ·) = true) ∧
      SetApart isFunction rest
  | _ :: rest => FollowsApart rest ∧ SetApart isFunction rest

instance : DecidablePred (IsPlain isFunction) := fun _ => inferInstanceAs (Decidable (_ ∧ _))

instance : DecidablePred (EndsApart isFunction) := fun _ => inferInstanceAs (Decidable (_ = _))

instance : DecidablePred FollowsApart
  | [] => isTrue trivial
  | .text t :: _ => inferInstanceAs (Decidable (StartsApart t.toList))
  | .reference _ _ _ :: _ | .call _ _ _ :: _ => isFalse id

/-- Decides whether a list is set apart. -/
def decSetApart : (segments : List Segment) → Decidable (SetApart isFunction segments)
  | [] => isTrue trivial
  | .text t :: rest =>
    have := decSetApart rest
    inferInstanceAs (Decidable (IsPlain isFunction t ∧ (rest = [] ∨ _ ∧ _) ∧
      SetApart isFunction rest))
  | .reference _ _ _ :: rest | .call _ _ _ :: rest =>
    have := decSetApart rest
    inferInstanceAs (Decidable (FollowsApart rest ∧ SetApart isFunction rest))
termination_by structural segments => segments

instance : DecidablePred (SetApart isFunction) := decSetApart

theorem SetApart.tail {s : Segment} {rest : List Segment} (h : SetApart isFunction (s :: rest)) :
    SetApart isFunction rest := by
  cases s with
  | text t => exact h.2.2
  | reference name raw fallback => exact h.2
  | call name args raw => exact h.2

theorem SetApart.followsApart {s : Segment} {rest : List Segment}
    (h : SetApart isFunction (s :: rest)) (hs : s.isText = false) : FollowsApart rest := by
  cases s with
  | text t => cases hs
  | reference name raw fallback => exact h.1
  | call name args raw => exact h.1

/-- Plain text is read as text. -/
theorem parse_plain {t behind : String} (ht : IsPlain isFunction t)
    (hseam : EndsApart isFunction t ∨ StartsApart behind.toList) :
    parse isFunction (t ++ behind) = pushText t (parse isFunction behind) := by
  have hne : t.toList ≠ [] := fun h => ht.1 (String.toList_eq_nil_iff.1 h)
  rw [parse, String.toList_append, ofLexemes_plain hne ht.2 hseam, String.ofList_toList]
  rfl

/-- Two texts that meet are like the second one. -/
theorem nameAfter?_seam {t u : String} (ht : IsPlain isFunction t) (hu : u ≠ "")
    (hseam : EndsApart isFunction t ∨ StartsApart u.toList) :
    nameAfter? isFunction [] (t ++ u).toList = nameAfter? isFunction [] u.toList := by
  obtain ⟨name, hname⟩ := Option.isSome_iff_exists.1 ht.2
  rw [String.toList_append, Lexeme.nameAfter?_append, hname, Option.bind_some]
  rcases hseam with hends | hstarts
  · rw [EndsApart, hname] at hends
    rw [Option.some.inj hends]
  · cases hchars : u.toList with
    | nil => exact absurd (String.toList_eq_nil_iff.1 hchars) hu
    | cons c rest =>
      rw [hchars] at hstarts
      exact Lexeme.nameAfter?_of_startsApart hstarts name

theorem startsApart_append {t u : String} (ht : t ≠ "") (h : StartsApart t.toList) :
    StartsApart (t ++ u).toList := by
  rw [String.toList_append]
  cases hchars : t.toList with
  | nil => exact absurd (String.toList_eq_nil_iff.1 hchars) ht
  | cons c rest =>
    rw [hchars] at h
    exact h

/-- What can follow a reference or call is spelled so that it starts apart. -/
theorem startsApart_rawOf {segments : List Segment} (h : SetApart isFunction segments)
    (hfollows : FollowsApart segments) {behind : String} (hbehind : StartsApart behind.toList) :
    StartsApart (rawOf segments ++ behind).toList := by
  cases segments with
  | nil =>
    rw [rawOf_nil_append]
    exact hbehind
  | cons s rest =>
    cases s with
    | text t =>
      rw [rawOf_cons, String.append_assoc]
      exact startsApart_append h.1.1 hfollows
    | reference name raw fallback => exact hfollows.elim
    | call name args raw => exact hfollows.elim

/-- **What is set apart is read as it is spelled**, also in front of a text that starts apart. -/
theorem parse_rawOf {segments : List Segment} (h : SetApart isFunction segments)
    (hspelled : AllSpelled isFunction segments) {behind : String}
    (hbehind : StartsApart behind.toList) :
    parse isFunction (rawOf segments ++ behind) = append segments (parse isFunction behind) := by
  induction segments with
  | nil =>
    rw [rawOf_nil_append]
    rfl
  | cons s rest ih =>
    rw [rawOf_cons, String.append_assoc]
    cases s with
    | text t =>
      obtain ⟨hplain, hrest, hafter⟩ := h
      rw [append, ← ih hafter hspelled.2]
      apply parse_plain hplain
      rcases hrest with rfl | ⟨hends, _⟩
      · rw [rawOf_nil_append]
        exact Or.inr hbehind
      · exact Or.inl hends
    | reference name raw fallback =>
      rw [hspelled.1.stands rfl _ (startsApart_rawOf h.2 h.1 hbehind), ih h.2 hspelled.2]
      rfl
    | call name args raw =>
      rw [hspelled.1.stands rfl _ (startsApart_rawOf h.2 h.1 hbehind), ih h.2 hspelled.2]
      rfl

theorem append_nil_of_setApart {segments : List Segment} (h : SetApart isFunction segments) :
    append segments [] = segments := by
  induction segments with
  | nil => rfl
  | cons s rest ih =>
    cases s with
    | text t =>
      obtain ⟨_, hrest, hafter⟩ := h
      rw [append, ih hafter]
      rcases hrest with rfl | ⟨_, hhead⟩
      · rfl
      · cases rest with
        | nil => rfl
        | cons s' rest =>
          cases s' with
          | text u => cases hhead
          | reference name raw fallback => rfl
          | call name args raw => rfl
    | reference name raw fallback =>
      rw [append, ih h.2]
      simp
    | call name args raw =>
      rw [append, ih h.2]
      simp

/-! ## Joining lists -/

theorem setApart_pushText {t : String} {segments : List Segment} (ht : IsPlain isFunction t)
    (h : SetApart isFunction segments)
    (hseam : EndsApart isFunction t ∨ FollowsApart segments) :
    SetApart isFunction (pushText t segments) := by
  cases segments with
  | nil => exact ⟨ht, Or.inl rfl, trivial⟩
  | cons s rest =>
    cases s with
    | text u =>
      obtain ⟨hu, hrest, hafter⟩ := h
      -- The two texts are one now, and it ends as the second one does.
      have hname := nameAfter?_seam ht hu.1 hseam
      refine ⟨⟨?_, ?_⟩, ?_, hafter⟩
      · intro hempty
        exact ht.1 (String.append_eq_empty_iff.1 hempty).1
      · rw [hname]
        exact hu.2
      · rw [EndsApart, hname]
        exact hrest
    | reference name raw fallback =>
      exact ⟨ht, Or.inr ⟨hseam.resolve_right (fun hfalse => hfalse), rfl⟩, h⟩
    | call name args raw =>
      exact ⟨ht, Or.inr ⟨hseam.resolve_right (fun hfalse => hfalse), rfl⟩, h⟩

theorem followsApart_append {a b : List Segment} (ha : SetApart isFunction a)
    (hfollows : FollowsApart a) (hb : FollowsApart b) : FollowsApart (append a b) := by
  cases a with
  | nil => exact hb
  | cons s rest =>
    cases s with
    | text t =>
      rw [append]
      unfold pushText
      split
      · exact startsApart_append ha.1.1 hfollows
      · exact hfollows
    | reference name raw fallback => exact hfollows.elim
    | call name args raw => exact hfollows.elim

/-- **Lists that are set apart can be joined** if the second one can follow a reference. -/
theorem setApart_append {a b : List Segment} (ha : SetApart isFunction a)
    (hb : SetApart isFunction b) (hfollows : FollowsApart b) :
    SetApart isFunction (append a b) := by
  induction a with
  | nil => exact hb
  | cons s rest ih =>
    cases s with
    | text t =>
      obtain ⟨ht, hrest, hafter⟩ := ha
      rw [append]
      apply setApart_pushText ht (ih hafter)
      rcases hrest with rfl | ⟨hends, _⟩
      · exact Or.inr hfollows
      · exact Or.inl hends
    | reference name raw fallback => exact ⟨followsApart_append ha.2 ha.1 hfollows, ih ha.2⟩
    | call name args raw => exact ⟨followsApart_append ha.2 ha.1 hfollows, ih ha.2⟩

end Segment

end Theming
