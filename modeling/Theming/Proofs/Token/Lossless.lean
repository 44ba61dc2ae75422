import Mathlib
import Theming.Proofs.Text.Trimming
import Theming.Proofs.Token.Nesting

set_option autoImplicit false

/-! # Spellings of expressions

Reading an expression loses nothing of its spelling, at any depth. The segments of a text spell it,
a call spells its name and its arguments between commas (`raw_call`), and trimming an argument
trims its spelling (`rawOf_trim_ofLexemes`). The last one takes two facts about what is read: texts
alternate with references and calls (`alternates_ofLexemes`), and these have no blanks at their ends
(`isFirm_first`), so the blanks around an argument are in its first and its last segment.

The main result is `parse_lossless`. -/

namespace Theming

namespace Lexeme

open Text (isBlank IsTrimmed)

/-! ## Spellings of lexemes -/

theorem eq_comma_of_next {c : Char} {rest : List Char} (h : (next c rest).1 = .comma) :
    c = ',' := by
  by_contra hcomma
  simp only [next, if_neg hcomma] at h
  split_ifs at h
  exact (afterDollar_kind rest).2.2 h

/-- A comma is spelled as one. -/
theorem text_of_comma {s : List Char} : ∀ l ∈ scan s, l.kind = .comma → l.text = [','] := by
  fun_induction scan s with
  | case1 => intro l hl; cases hl
  | case2 c rest kind count h ih =>
    intro l hl hkind
    rcases List.mem_cons.1 hl with rfl | hl
    · obtain rfl := eq_comma_of_next (by rw [h]; exact hkind)
      obtain ⟨-, rfl⟩ := Prod.mk.inj h
      rfl
    · exact ih l hl hkind

theorem isBlank_of_ascii {c : Char} (hlow : 33 ≤ c.toNat) (hhigh : c.toNat < 128) :
    isBlank c = false := by
  simp only [isBlank, Bool.or_eq_false_iff, Bool.and_eq_false_iff, decide_eq_false_iff_not,
    beq_eq_false_iff_ne]
  omega

theorem isBlank_of_isNameChar {c : Char} (h : isNameChar c = true) : isBlank c = false := by
  have hrange : 65 ≤ c.toNat ∧ c.toNat ≤ 90 ∨ 97 ≤ c.toNat ∧ c.toNat ≤ 122 ∨
      48 ≤ c.toNat ∧ c.toNat ≤ 57 ∨ c = '_' ∨ c = '-' := by
    simpa [isNameChar, Char.isAlphanum, Char.isAlpha, Char.isUpper, Char.isLower, Char.isDigit,
      UInt32.le_iff_toNat_le, or_assoc, and_comm] using h
  rcases hrange with hupper | hlower | hdigit | rfl | rfl
  · exact isBlank_of_ascii (by omega) (by omega)
  · exact isBlank_of_ascii (by omega) (by omega)
  · exact isBlank_of_ascii (by omega) (by omega)
  · decide
  · decide

theorem mem_take_dottedLength (s : List Char) :
    ∀ c ∈ s.take (dottedLength s), isNameChar c = true ∨ c = '.' := by
  fun_induction dottedLength s with
  | case1 => simp
  | case2 c rest hc ih => simp [hc]; exact ih
  | case3 c rest hc hdot ih =>
    simp only [Bool.and_eq_true, decide_eq_true_eq] at hdot
    simp [hdot.1]
    exact ih
  | case4 => simp

theorem take_of_contains {d : Char} {s : List Char} (h : s.contains d = true) :
    s.take ((s.takeWhile (· != d)).length + 1) = s.takeWhile (· != d) ++ [d] := by
  induction s with
  | nil => cases h
  | cons c rest ih =>
    by_cases hc : c = d
    · subst hc
      simp
    · have hrest : rest.contains d = true := by simpa [Ne.symm hc] using h
      simp [hc, ih hrest]

/-- What a dollar sign starts, if it is no plain text, ends without a blank. -/
theorem getLast?_afterDollar {rest : List Char} (h : (afterDollar rest).1 ≠ .other) :
    ∀ c, ('$' :: rest.take (afterDollar rest).2).getLast? = some c → isBlank c = false := by
  intro c hc
  cases rest with
  | nil => exact absurd rfl h
  | cons d s =>
    by_cases hbrace : d = '\x7b'
    · subst hbrace
      rw [afterDollar_brace] at h hc
      split at h
      · next hclosed =>
        -- The last character is the closing brace.
        rw [if_pos hclosed, List.take_succ_cons, take_of_contains hclosed, ← List.cons_append,
          ← List.cons_append, List.getLast?_concat] at hc
        cases hc
        decide
      · exact absurd rfl h
    · rw [afterDollar_of_ne hbrace] at h hc
      split at h
      · next hstart =>
        rw [if_pos hstart] at hc
        rcases List.mem_cons.1 (List.mem_of_getLast? hc) with rfl | hmem
        · decide
        · rcases mem_take_dottedLength _ c hmem with hname | rfl
          · exact isBlank_of_isNameChar hname
          · decide
      · exact absurd rfl h

theorem isTrimmed_singleton {c : Char} (h : isBlank c = false) : IsTrimmed [c] :=
  ⟨fun _ hc => Option.some.inj hc ▸ h, fun _ hc => Option.some.inj hc ▸ h⟩

/-- A lexeme that is no plain text has no blanks at its ends. -/
theorem isTrimmed_next {c : Char} {rest : List Char} (h : (next c rest).1 ≠ .other) :
    IsTrimmed (c :: rest.take (next c rest).2) := by
  by_cases hdollar : c = '$'
  · subst hdollar
    refine ⟨?_, getLast?_afterDollar h⟩
    intro c hc
    cases hc
    decide
  by_cases hopening : c = '('
  · subst hopening
    exact isTrimmed_singleton (by decide)
  by_cases hclosing : c = ')'
  · subst hclosing
    exact isTrimmed_singleton (by decide)
  by_cases hcomma : c = ','
  · subst hcomma
    exact isTrimmed_singleton (by decide)
  simp only [next, if_neg hdollar, if_neg hopening, if_neg hclosing, if_neg hcomma] at h ⊢
  split at h
  · next hstart =>
    have hall : ∀ d ∈ c :: rest.take (rest.takeWhile isNameChar).length, isBlank d = false := by
      intro d hd
      apply isBlank_of_isNameChar
      rcases List.mem_cons.1 hd with rfl | hd
      · exact isNameChar_of_start hstart
      · rw [← List.prefix_iff_eq_take.1 (List.takeWhile_prefix isNameChar)] at hd
        exact List.all_eq_true.1 List.all_takeWhile d hd
    rw [if_pos hstart]
    exact ⟨fun d hd => hall d (List.mem_of_head? hd), fun d hd => hall d (List.mem_of_getLast? hd)⟩
  · exact absurd rfl h

/-- The text of lexemes has no blanks at its ends if the first and the last one have none. -/
theorem isTrimmed_join {ls : List Lexeme} (hls : ∀ l ∈ ls, l.text ≠ [])
    (hfirst : ∀ l, ls.head? = some l → IsTrimmed l.text)
    (hlast : ∀ l, ls.getLast? = some l → IsTrimmed l.text) : IsTrimmed (join ls) := by
  constructor
  · intro c hc
    cases ls with
    | nil => cases hc
    | cons l rest =>
      apply (hfirst l rfl).1 c
      obtain ⟨d, text, htext⟩ := List.exists_cons_of_ne_nil (hls l List.mem_cons_self)
      rw [join_cons, htext] at hc
      rwa [htext]
  · intro c hc
    rcases List.eq_nil_or_concat ls with rfl | ⟨front, l, rfl⟩
    · cases hc
    · apply (hlast l (by simp)).2 c
      have hne : l.text ≠ [] := hls l (by simp)
      have hjoin : join (front ++ [l]) = join front ++ l.text := by
        rw [join_append, join_cons]
        simp [join]
      rw [List.concat_eq_append, hjoin, List.getLast?_append, Option.or_of_isSome] at hc
      · exact hc
      · exact List.getLast?_isSome.2 hne

theorem Scanned.text_ne_nil {ls : List Lexeme} (h : Scanned ls) : ∀ l ∈ ls, l.text ≠ [] := by
  induction ls with
  | nil => simp
  | cons l rest ih =>
    obtain ⟨c, s, -, -, htext, -, hrest⟩ := h.uncons
    intro l' hl'
    rcases List.mem_cons.1 hl' with rfl | hl'
    · simp [htext]
    · exact ih hrest l' hl'

theorem Scanned.isTrimmed_text {ls : List Lexeme} (h : Scanned ls) :
    ∀ l ∈ ls, l.kind ≠ .other → IsTrimmed l.text := by
  induction ls with
  | nil => simp
  | cons l rest ih =>
    obtain ⟨c, s, -, hkind, htext, -, hrest⟩ := h.uncons
    intro l' hl' hother
    rcases List.mem_cons.1 hl' with rfl | hl'
    · rw [htext]
      exact isTrimmed_next (hkind ▸ hother)
    · exact ih hrest l' hl' hother

/-! ## Parts between commas -/

/-- The parts with commas between them are spelled like the whole. -/
theorem intercalate_join_parts (depth : Nat) : ∀ {ls : List Lexeme},
    (∀ l ∈ ls, l.kind = .comma → l.text = [',']) →
    [','].intercalate ((parts depth ls).map join) = join ls := by
  intro ls hcomma
  rcases parts_cases depth ls with hone | ⟨part, comma, rest, hkind, hls, hparts, -⟩
  · rw [hone, List.map_singleton, List.intercalate_singleton]
  · have hrest : ∀ l ∈ rest, l.kind = .comma → l.text = [','] :=
      fun l hl => hcomma l (by simp [hls, hl])
    have htext : comma.text = [','] := hcomma comma (by simp [hls]) hkind
    have hshort : rest.length < ls.length := by
      rw [hls, List.length_append, List.length_cons]
      omega
    have ih := intercalate_join_parts 0 hrest
    obtain ⟨next, others, hnext⟩ := List.exists_cons_of_ne_nil (parts_ne_nil 0 rest)
    rw [hnext, List.map_cons] at ih
    rw [hparts, hnext, List.map_cons, List.map_cons, List.intercalate_cons_cons, ih, hls, join_append,
      join_cons, htext, List.append_assoc]
termination_by ls => ls.length

theorem Scanned.of_mem_parts (depth : Nat) : ∀ {ls : List Lexeme}, Scanned ls →
    ∀ part ∈ parts depth ls, Scanned part := by
  intro ls h part hpart
  rcases parts_cases depth ls with hone | ⟨first, comma, rest, -, hls, hparts, -⟩
  · rw [hone] at hpart
    exact List.mem_singleton.1 hpart ▸ h
  · have hshort : rest.length < ls.length := by
      rw [hls, List.length_append, List.length_cons]
      omega
    rw [hls] at h
    rw [hparts] at hpart
    rcases List.mem_cons.1 hpart with rfl | hpart
    · exact h.left
    · exact Scanned.of_mem_parts 0 h.right.tail part hpart
termination_by ls => ls.length

theorem Scanned.of_mem_arguments {inner part : List Lexeme} (h : Scanned inner)
    (hpart : part ∈ arguments inner) : Scanned part := by
  unfold arguments at hpart
  split at hpart
  · cases hpart
  · exact h.of_mem_parts 0 part hpart

end Lexeme

namespace Segment

open Lexeme (Scanned callAfter? arguments)
open Text (isBlank IsTrimmed trimStart trimEnd trimmed)

variable {isFunction : String → Bool}

/-! ## Segments anywhere in an expression -/

/-- Whether a segment stands in a list of segments, or in an argument or fallback in it, at any
    depth. -/
inductive Within (s : Segment) : List Segment → Prop
  | here {segments : List Segment} : s ∈ segments → Within s segments
  | argument {segments arg : List Segment} {name raw : String} {args : List (List Segment)} :
    .call name args raw ∈ segments → arg ∈ args → Within s arg → Within s segments
  | fallback {segments others : List Segment} {name raw : String} :
    .reference name raw (some others) ∈ segments → Within s others → Within s segments

/-- A call is made of the name and the contents of the parentheses behind it. -/
theorem call_first {l : Lexeme} {rest : List Lexeme} {name raw : String}
    {args : List (List Segment)} (h : (first isFunction l rest).1 = .call name args raw) :
    ∃ inner after, callAfter? rest = some (inner, after) ∧ name = String.ofList l.text ∧
      args = (arguments inner).map (ofLexemes isFunction) ∧ raw = callText l.text inner := by
  unfold first at h
  split at h
  · cases h
  · split at h <;> cases h
  · split at h
    · next inner after hcall =>
      split at h
      · split at h <;> cases h
      · split at h
        · obtain ⟨rfl, rfl, rfl⟩ := Segment.call.inj h
          exact ⟨inner, after, hcall, rfl, rfl, rfl⟩
        · cases h
    · cases h
  · cases h

/-- Whether segments are read from lexemes of a text, and perhaps trimmed. -/
def IsRead (isFunction : String → Bool) (segments : List Segment) : Prop :=
  ∃ ls, Scanned ls ∧
    (segments = ofLexemes isFunction ls ∨ segments = trim (ofLexemes isFunction ls))

theorem isRead_parse (isFunction : String → Bool) (text : String) :
    IsRead isFunction (parse isFunction text) :=
  ⟨Lexeme.scan text.toList, Lexeme.scanned_scan _, Or.inl rfl⟩

/-- A segment of a text is plain text or the first segment of some lexemes. -/
theorem mem_ofLexemes : ∀ {ls : List Lexeme}, Scanned ls → ∀ s ∈ ofLexemes isFunction ls,
    s.isText = true ∨ ∃ l rest, Scanned (l :: rest) ∧ s = (first isFunction l rest).1
  | [], _, s, hs => by
    rw [ofLexemes_nil] at hs
    cases hs
  | l :: rest, h, s, hs => by
    have hsuffix := first_suffix isFunction l rest
    have hlength := hsuffix.length_le
    rw [ofLexemes_cons] at hs
    rcases mem_append hs with hfirst | hleft | htext
    · exact Or.inr ⟨l, rest, h, List.mem_singleton.1 hfirst⟩
    · exact mem_ofLexemes (h.tail.suffix hsuffix) s hleft
    · exact Or.inl htext
termination_by ls => ls.length
decreasing_by simp only [List.length_cons]; omega

theorem IsRead.mem {segments : List Segment} (h : IsRead isFunction segments) {s : Segment}
    (hs : s ∈ segments) (htext : s.isText = false) :
    ∃ l rest, Scanned (l :: rest) ∧ s = (first isFunction l rest).1 := by
  obtain ⟨ls, hscanned, rfl | rfl⟩ := h
  · exact (mem_ofLexemes hscanned s hs).resolve_left (by simp [htext])
  · have hmem := (mem_trim hs).resolve_right (by simp [htext])
    exact (mem_ofLexemes hscanned s hmem).resolve_left (by simp [htext])

/-- **References and calls at any depth are first segments of some lexemes**, so what holds of those
    holds everywhere. -/
theorem within_first {segments : List Segment} {s : Segment} (hwithin : Within s segments)
    (hread : IsRead isFunction segments) (htext : s.isText = false) :
    ∃ l rest, Scanned (l :: rest) ∧ s = (first isFunction l rest).1 := by
  induction hwithin with
  | here hmem => exact hread.mem hmem htext
  | argument hcall harg hbelow ih =>
    obtain ⟨l, rest, hscanned, hfirst⟩ := hread.mem hcall rfl
    obtain ⟨inner, after, hafter, -, rfl, -⟩ := call_first hfirst.symm
    obtain ⟨part, hpart, rfl⟩ := List.mem_map.1 harg
    have hinner := hscanned.tail.inner hafter
    exact ih ⟨part, hinner.of_mem_arguments hpart, Or.inl rfl⟩
  | fallback hreference hbelow ih =>
    obtain ⟨l, rest, hscanned, hfirst⟩ := hread.mem hreference rfl
    obtain ⟨inner, after, others, hafter, hothers, rfl⟩ := fallback_first hfirst.symm
    have hinner := hscanned.tail.inner hafter
    exact ih ⟨others, hinner.suffix (Lexeme.cutComma_suffix hothers), Or.inr rfl⟩

/-! ## Calls -/

theorem rawOf_ofLexemes_of_scanned {ls : List Lexeme} (h : Scanned ls) :
    rawOf (ofLexemes isFunction ls) = String.ofList (Lexeme.join ls) :=
  rawOf_ofLexemes isFunction h.isSpelled

/-- **A call is spelled by its name and its arguments**, with commas between them. -/
theorem raw_call {l : Lexeme} {rest : List Lexeme} {name raw : String}
    {args : List (List Segment)} (hscanned : Scanned (l :: rest))
    (h : (first isFunction l rest).1 = .call name args raw) :
    raw = name ++ "(" ++ ",".intercalate (args.map rawOf) ++ ")" := by
  obtain ⟨inner, after, hcall, rfl, rfl, rfl⟩ := call_first h
  have hinner := hscanned.tail.inner hcall
  have hraws : ((arguments inner).map (ofLexemes isFunction)).map rawOf =
      ((arguments inner).map Lexeme.join).map String.ofList := by
    simp only [List.map_map]
    apply List.map_congr_left
    intro part hpart
    exact rawOf_ofLexemes_of_scanned (hinner.of_mem_arguments hpart)
  have hjoin : [','].intercalate ((arguments inner).map Lexeme.join) = Lexeme.join inner := by
    unfold arguments
    split
    · next hempty => rw [List.isEmpty_iff.1 hempty]; rfl
    · apply Lexeme.intercalate_join_parts 0
      rw [← hinner]
      exact Lexeme.text_of_comma
  apply String.toList_inj.1
  rw [hraws, callText]
  simp [String.toList_intercalate, Function.comp_def, hjoin]

/-! ## Texts between references and calls -/

/-- Whether no two neighbours are plain text. -/
def Alternates (segments : List Segment) : Prop :=
  segments.IsChain (fun s s' => s.isText = true → s'.isText = false)

theorem alternates_iff {segments : List Segment} :
    Alternates segments ↔
      (segments.map isText).IsChain (fun t t' => t = true → t' = false) := by
  rw [List.isChain_map]
  rfl

theorem alternates_pushText (t : String) {segments : List Segment} (h : Alternates segments) :
    Alternates (pushText t segments) := by
  rw [alternates_iff] at h ⊢
  unfold pushText
  split
  · exact h
  · next hne =>
    cases segments with
    | nil => exact List.isChain_singleton _
    | cons s rest =>
      refine List.isChain_cons_cons.2 ⟨fun _ => ?_, h⟩
      cases s with
      | text u => exact absurd rfl (hne u rest)
      | reference name raw fallback => rfl
      | call name args raw => rfl

theorem alternates_cons {s : Segment} (htext : s.isText = false) {segments : List Segment}
    (h : Alternates segments) : Alternates (s :: segments) := by
  cases segments with
  | nil => exact List.isChain_singleton s
  | cons s' rest => exact List.isChain_cons_cons.2 ⟨by simp [htext], h⟩

/-- What is read has no two texts next to each other. -/
theorem alternates_ofLexemes (isFunction : String → Bool) : ∀ ls : List Lexeme,
    Alternates (ofLexemes isFunction ls)
  | [] => by
    rw [ofLexemes_nil]
    exact List.isChain_nil
  | l :: rest => by
    have hlength := (first_suffix isFunction l rest).length_le
    have ih := alternates_ofLexemes isFunction (first isFunction l rest).2
    rw [ofLexemes_cons]
    cases htext : (first isFunction l rest).1 with
    | text t => exact alternates_pushText t ih
    | reference name raw fallback => exact alternates_cons rfl ih
    | call name args raw => exact alternates_cons rfl ih
termination_by ls => ls.length
decreasing_by simp only [List.length_cons]; omega

/-! ## Blanks around segments -/

/-- Whether a segment is spelled without blanks at its ends. -/
def IsFirm (s : Segment) : Prop := s.raw ≠ "" ∧ IsTrimmed s.raw.toList

/-- References and calls have no blanks at their ends. -/
theorem isFirm_first {l : Lexeme} {rest : List Lexeme} (hscanned : Scanned (l :: rest))
    (htext : (first isFunction l rest).1.isText = false) : (first isFunction l rest).1.IsFirm := by
  obtain ⟨used, hused, hspec⟩ := first_spec isFunction l rest
  obtain ⟨-, hlast⟩ := hspec htext
  have hfirst : l.kind ≠ .other := by
    intro hkind
    simp only [first, hkind] at htext
    cases htext
  have htaken : Scanned (l :: used) := by
    rw [hused, ← List.cons_append] at hscanned
    exact hscanned.left
  rw [IsFirm, raw_first_used isFunction hscanned.tail.isSpelled hused, String.toList_ofList]
  constructor
  · rw [Ne, ← String.toList_eq_nil_iff, String.toList_ofList]
    exact Lexeme.join_ne_nil htaken
  · refine Lexeme.isTrimmed_join htaken.text_ne_nil ?_ ?_
    · rintro _ ⟨⟩
      exact htaken.isTrimmed_text l List.mem_cons_self hfirst
    · intro last hmem
      exact htaken.isTrimmed_text last (List.mem_of_getLast? hmem) (hlast last hmem)

/-- Whether texts alternate with references and calls that have no blanks at their ends. -/
structure IsSpaced (segments : List Segment) : Prop where
  alternates : Alternates segments
  isFirm : ∀ s ∈ segments, s.isText = false → s.IsFirm

theorem isSpaced_ofLexemes {ls : List Lexeme} (h : Scanned ls) :
    IsSpaced (ofLexemes isFunction ls) := by
  refine ⟨alternates_ofLexemes isFunction ls, fun s hs htext => ?_⟩
  obtain ⟨l, rest, hscanned, rfl⟩ := (mem_ofLexemes h s hs).resolve_left (by simp [htext])
  exact isFirm_first hscanned htext

theorem IsSpaced.tail {s : Segment} {rest : List Segment} (h : IsSpaced (s :: rest)) :
    IsSpaced rest :=
  ⟨h.alternates.tail, fun s' hs' => h.isFirm s' (List.mem_cons_of_mem s hs')⟩

/-- Behind a text no blank is spelled first. -/
theorem IsSpaced.head_rest {s : Segment} {rest : List Segment} (h : IsSpaced (s :: rest))
    (htext : s.isText = true) :
    rest = [] ∨ ∃ s' others, rest = s' :: others ∧ s'.isText = false ∧ s'.IsFirm := by
  cases rest with
  | nil => exact Or.inl rfl
  | cons s' others =>
    have hnext : s'.isText = false := (List.isChain_cons_cons.1 h.alternates).1 htext
    exact Or.inr ⟨s', others, rfl, hnext, h.isFirm s' (by simp) hnext⟩

theorem IsFirm.head_rawOf {s : Segment} (h : s.IsFirm) (rest : List Segment) :
    ∀ c, (rawOf (s :: rest)).toList.head? = some c → isBlank c = false := by
  intro c hc
  have hne : s.raw.toList ≠ [] := by simpa using h.1
  rw [rawOf_cons, String.toList_append, List.head?_append_of_ne_nil _ hne] at hc
  exact h.2.1 c hc

theorem rawOf_trimFirst {segments : List Segment} (h : IsSpaced segments) :
    (rawOf (trimFirst segments)).toList = trimStart (rawOf segments).toList := by
  cases segments with
  | nil => rfl
  | cons s rest =>
    cases htext : s.isText with
    | true =>
      cases s with
      | text t =>
        have hrest : ∀ c, (rawOf rest).toList.head? = some c → isBlank c = false := by
          rcases h.head_rest rfl with rfl | ⟨s', others, rfl, -, hfirm⟩
          · intro c hc
            cases hc
          · exact hfirm.head_rawOf others
        rw [trimFirst, rawOf_cons, rawOf_cons, String.toList_append, String.toList_append,
          Text.trimStart_append hrest]
        simp [raw]
      | reference name raw fallback => cases htext
      | call name args raw => cases htext
    | false =>
      have hself : trimFirst (s :: rest) = s :: rest := by
        cases s with
        | text t => cases htext
        | reference name raw fallback => rfl
        | call name args raw => rfl
      have hhead := (h.isFirm s List.mem_cons_self htext).head_rawOf rest
      rw [hself]
      exact (Text.trimStart_append (s := []) hhead).symm

theorem rawOf_trimLast {segments : List Segment} (h : IsSpaced segments) :
    (rawOf (trimLast segments)).toList = trimEnd (rawOf segments).toList := by
  fun_induction trimLast segments with
  | case1 => rfl
  | case2 t => simp [rawOf_singleton, raw]
  | case3 s rest hlast ih =>
    -- Behind a text there is something that is not blank, and others do not end with a blank.
    have hseam : (∃ c ∈ (rawOf rest).toList, isBlank c = false) ∨
        ∀ c, s.raw.toList.getLast? = some c → isBlank c = false := by
      cases htext : s.isText with
      | false => exact Or.inr (h.isFirm s List.mem_cons_self htext).2.2
      | true =>
        left
        rcases h.head_rest htext with rfl | ⟨s', others, rfl, -, hfirm⟩
        · cases s with
          | text t => exact absurd rfl (hlast t rfl)
          | reference name raw fallback => cases htext
          | call name args raw => cases htext
        · have hne : s'.raw.toList ≠ [] := by simpa using hfirm.1
          obtain ⟨c, chars, hchars⟩ := List.exists_cons_of_ne_nil hne
          refine ⟨c, ?_, hfirm.2.1 c (by rw [hchars]; rfl)⟩
          rw [rawOf_cons, String.toList_append, hchars]
          simp
    rw [rawOf_cons, rawOf_cons, String.toList_append, String.toList_append, ih h.tail,
      Text.trimEnd_append hseam]

/-- Trimming in front keeps what alternates. -/
theorem IsSpaced.trimFirst {segments : List Segment} (h : IsSpaced segments) :
    IsSpaced (trimFirst segments) := by
  constructor
  · have hsame : (Segment.trimFirst segments).map isText = segments.map isText := by
      unfold Segment.trimFirst
      split <;> rfl
    rw [alternates_iff, hsame, ← alternates_iff]
    exact h.alternates
  · intro s hs htext
    exact h.isFirm s ((mem_trimFirst hs).resolve_right (by simp [htext])) htext

theorem rawOf_filter_isFilled (segments : List Segment) :
    rawOf (segments.filter isFilled) = rawOf segments := by
  induction segments with
  | nil => rfl
  | cons s rest ih =>
    cases hfilled : s.isFilled with
    | true => rw [List.filter_cons_of_pos hfilled, rawOf_cons, rawOf_cons, ih]
    | false =>
      have hraw : s.raw = "" := by
        cases s with
        | text t => simpa [isFilled, raw] using hfilled
        | reference name raw fallback => cases hfilled
        | call name args raw => cases hfilled
      rw [List.filter_cons_of_neg (by simp [hfilled]), ih, rawOf_cons, hraw, String.empty_append]

/-- **Trimming segments trims their spelling.** -/
theorem rawOf_trim {segments : List Segment} (h : IsSpaced segments) :
    rawOf (trim segments) = trimmed (rawOf segments) := by
  apply String.toList_inj.1
  rw [trim, rawOf_filter_isFilled, rawOf_trimLast h.trimFirst, rawOf_trimFirst h, trimmed,
    String.toList_ofList, Text.trim]

/-! ## Reading is lossless -/

/-- **Nothing of an expression is lost**: its segments spell it, plain text is never split, and every
    call in it, at any depth, spells its name and its arguments, which are trimmed as texts are. -/
theorem parse_lossless (isFunction : String → Bool) (text : String) :
    rawOf (parse isFunction text) = text ∧ Alternates (parse isFunction text) ∧
      ∀ name args raw, Within (.call name args raw) (parse isFunction text) →
        raw = name ++ "(" ++ ",".intercalate (args.map rawOf) ++ ")" ∧
          ∀ arg ∈ args, Alternates arg ∧ rawOf (trim arg) = trimmed (rawOf arg) := by
  refine ⟨rawOf_parse isFunction text, alternates_ofLexemes isFunction _, ?_⟩
  intro name args raw hwithin
  obtain ⟨l, rest, hscanned, hfirst⟩ := within_first hwithin (isRead_parse isFunction text) rfl
  refine ⟨raw_call hscanned hfirst.symm, ?_⟩
  obtain ⟨inner, after, hcall, -, rfl, -⟩ := call_first hfirst.symm
  intro arg harg
  obtain ⟨part, hpart, rfl⟩ := List.mem_map.1 harg
  have hpart := (hscanned.tail.inner hcall).of_mem_arguments hpart
  have hspaced := @isSpaced_ofLexemes isFunction _ hpart
  exact ⟨hspaced.alternates, rawOf_trim hspaced⟩

/-- A call between blanks in the argument of another one. -/
theorem parse_lossless_nested :
    let isFunction := fun name => ["mix", "lighten"].contains name
    let text := "1px mix( lighten($a, 0.1) ,$b)"
    let args : List (List Segment) := [[.reference "a" "$a" none], [.text " 0.1"]]
    Within (.call "lighten" args "lighten($a, 0.1)") (parse isFunction text) ∧
      "lighten($a, 0.1)" = "lighten" ++ "(" ++ ",".intercalate (args.map rawOf) ++ ")" ∧
      rawOf (trim [.text " 0.1"]) = trimmed (rawOf [.text " 0.1"]) := by
  intro isFunction text args
  have hparse : parse isFunction text =
      [.text "1px ", .call "mix"
        [[.text " ", .call "lighten" args "lighten($a, 0.1)", .text " "],
          [.reference "b" "$b" none]] "mix( lighten($a, 0.1) ,$b)"] := by
    decide +kernel
  have hwithin : Within (.call "lighten" args "lighten($a, 0.1)") (parse isFunction text) := by
    rw [hparse]
    refine .argument (List.mem_cons_of_mem _ List.mem_cons_self) List.mem_cons_self (.here ?_)
    exact List.mem_cons_of_mem _ List.mem_cons_self
  obtain ⟨-, -, hcalls⟩ := parse_lossless isFunction text
  obtain ⟨hraw, hargs⟩ := hcalls _ _ _ hwithin
  exact ⟨hwithin, hraw, (hargs _ (List.mem_cons_of_mem _ List.mem_cons_self)).2⟩

end Segment

end Theming
