import Theming.Proofs.Token.Reading

set_option autoImplicit false

/-! # Nested parentheses

Lexemes whose parentheses close each other are read on their own: from a comma or a closing
parenthesis on, what stands behind them changes nothing (`ofLexemes_append`). The contents of a call
are such lexemes (`closes_inner`), and commas outside parentheses cut them into parts that are such
lexemes as well (`parts_cases`). -/

namespace Theming

namespace Lexeme

/-! ## Lexemes that close -/

/-- Whether the parentheses of lexemes close each other and `depth` more that are open in front. -/
def Closes : Nat → List Lexeme → Prop
  | depth, [] => depth = 0
  | depth, l :: rest => (l.kind = .closing → depth ≠ 0) ∧ Closes (depthAfter depth l) rest

theorem depthAfter_add {depth : Nat} {l : Lexeme} (h : l.kind = .closing → depth ≠ 0)
    (more : Nat) : depthAfter (depth + more) l = depthAfter depth l + more := by
  obtain ⟨kind, text⟩ := l
  cases kind with
  | closing =>
    have hpos := h rfl
    simp only [depthAfter]
    omega
  | opening => simp only [depthAfter, Nat.add_right_comm]
  | _ => rfl

theorem depthAfter_comma {l : Lexeme} (h : l.kind = .comma) (depth : Nat) :
    depthAfter depth l = depth := by
  simp only [depthAfter, h]

/-- What is in front of the closing parenthesis closes. -/
theorem closes_of_untilClosing {depth : Nat} {ls inner after : List Lexeme}
    (h : untilClosing depth ls = some (inner, after)) : Closes depth inner := by
  induction ls generalizing depth inner with
  | nil => cases h
  | cons l rest ih =>
    by_cases hlast : l.kind = .closing ∧ depth = 0
    · obtain ⟨hkind, rfl⟩ := hlast
      rw [untilClosing_closing hkind] at h
      obtain ⟨rfl, -⟩ := Prod.mk.inj (Option.some.inj h)
      rfl
    · have hgoes : l.kind = .closing → depth ≠ 0 := fun hkind hdepth => hlast ⟨hkind, hdepth⟩
      rw [untilClosing_cons hgoes] at h
      obtain ⟨⟨i, a⟩, hi, he⟩ := Option.map_eq_some_iff.1 h
      obtain ⟨rfl, rfl⟩ := Prod.mk.inj he
      exact ⟨hgoes, ih hi⟩

/-- A parenthesis that is open in front is closed inside, and what is left closes the others. -/
theorem untilClosing_of_closes {depth outer : Nat} {ls : List Lexeme}
    (h : Closes (depth + (outer + 1)) ls) :
    ∃ inner after, untilClosing depth ls = some (inner, after) ∧ Closes outer after := by
  induction ls generalizing depth with
  | nil =>
    have hzero : depth + (outer + 1) = 0 := h
    omega
  | cons l rest ih =>
    by_cases hlast : l.kind = .closing ∧ depth = 0
    · obtain ⟨hkind, rfl⟩ := hlast
      refine ⟨[], rest, untilClosing_closing hkind rest, ?_⟩
      have hrest := h.2
      simpa only [depthAfter, hkind, Nat.zero_add, Nat.add_sub_cancel] using hrest
    · have hgoes : l.kind = .closing → depth ≠ 0 := fun hkind hdepth => hlast ⟨hkind, hdepth⟩
      have hrest := h.2
      rw [depthAfter_add hgoes] at hrest
      obtain ⟨inner, after, hfound, hafter⟩ := ih hrest
      refine ⟨l :: inner, after, ?_, hafter⟩
      rw [untilClosing_cons hgoes, hfound, Option.map_some]

/-- The contents of a call close. -/
theorem closes_inner {ls inner after : List Lexeme} (h : callAfter? ls = some (inner, after)) :
    Closes 0 inner := by
  cases ls with
  | nil => cases h
  | cons l rest =>
    rw [callAfter?] at h
    split at h
    · exact closes_of_untilClosing h
    · cases h

/-- A call is closed inside lexemes that close, and what is behind it closes what they close. -/
theorem callAfter?_of_closes {depth : Nat} {l : Lexeme} {rest : List Lexeme}
    (h : Closes depth (l :: rest)) (hkind : l.kind = .opening) :
    ∃ inner after, callAfter? (l :: rest) = some (inner, after) ∧ Closes depth after := by
  have hrest := h.2
  simp only [depthAfter, hkind] at hrest
  rw [← Nat.zero_add (depth + 1)] at hrest
  obtain ⟨inner, after, hfound, hafter⟩ := untilClosing_of_closes hrest
  refine ⟨inner, after, ?_, hafter⟩
  rw [callAfter?, if_pos hkind, hfound]

theorem callAfter?_of_ne {l : Lexeme} (h : l.kind ≠ .opening) (rest : List Lexeme) :
    callAfter? (l :: rest) = none :=
  if_neg h

theorem closes_after {depth : Nat} {ls inner after : List Lexeme} (h : Closes depth ls)
    (hcall : callAfter? ls = some (inner, after)) : Closes depth after := by
  cases ls with
  | nil => cases hcall
  | cons l rest =>
    by_cases hkind : l.kind = .opening
    · obtain ⟨inner', after', hfound, hafter⟩ := callAfter?_of_closes h hkind
      rw [hcall] at hfound
      obtain ⟨rfl, rfl⟩ := Prod.mk.inj (Option.some.inj hfound)
      exact hafter
    · rw [callAfter?_of_ne hkind] at hcall
      cases hcall

/-- Whether a call follows is seen in lexemes that close, whatever stands behind them. -/
theorem callAfter?_append {depth : Nat} {ls : List Lexeme} (h : Closes depth ls) {l : Lexeme}
    (hl : l.kind ≠ .opening) (tail : List Lexeme) :
    callAfter? (ls ++ l :: tail) =
      (callAfter? ls).map (fun (inner, after) => (inner, after ++ l :: tail)) := by
  cases ls with
  | nil => exact callAfter?_of_ne hl tail
  | cons l' rest =>
    by_cases hkind : l'.kind = .opening
    · obtain ⟨inner, after, hfound, -⟩ := callAfter?_of_closes h hkind
      obtain ⟨opening, closing, -, -, hsplit, hothers⟩ := callAfter?_spec hfound
      rw [hfound, Option.map_some, hsplit, List.cons_append, List.append_assoc]
      exact hothers (after ++ l :: tail)
    · rw [callAfter?_of_ne hkind, List.cons_append, callAfter?_of_ne hkind, Option.map_none]

/-! ## Parts between commas -/

theorem parts_ne_nil (depth : Nat) (ls : List Lexeme) : parts depth ls ≠ [] := by
  cases ls with
  | nil => simp [parts]
  | cons l rest =>
    rw [parts]
    split
    · simp
    · split <;> simp

/-- Lexemes have no comma outside parentheses, or the first one ends the first part. What is on
    either side of it closes if the lexemes close. -/
theorem parts_cases (depth : Nat) (ls : List Lexeme) :
    parts depth ls = [ls] ∨
      ∃ part comma rest, comma.kind = .comma ∧ ls = part ++ comma :: rest ∧
        parts depth ls = part :: parts 0 rest ∧
        (Closes depth ls → Closes depth part ∧ Closes 0 rest) := by
  induction ls generalizing depth with
  | nil => exact Or.inl rfl
  | cons l ls ih =>
    by_cases hcomma : l.kind = .comma ∧ depth = 0
    · obtain ⟨hkind, rfl⟩ := hcomma
      refine Or.inr ⟨[], l, ls, hkind, rfl, ?_, fun hcloses => ⟨rfl, ?_⟩⟩
      · rw [parts, if_pos ⟨hkind, rfl⟩]
      · have hrest := hcloses.2
        rwa [depthAfter_comma hkind] at hrest
    · rcases ih (depthAfter depth l) with hone | ⟨part, comma, rest, hkind, rfl, hparts, hcloses⟩
      · refine Or.inl ?_
        rw [parts, if_neg hcomma, hone]
      · refine Or.inr ⟨l :: part, comma, rest, hkind, rfl, ?_, fun hall => ?_⟩
        · rw [parts, if_neg hcomma, hparts]
        · obtain ⟨hpart, hrest⟩ := hcloses hall.2
          exact ⟨⟨hall.1, hpart⟩, hrest⟩

end Lexeme

namespace Segment

open Lexeme (Closes callAfter? callAfter?_append closes_after)

variable {isFunction : String → Bool}

/-! ## Reading on -/

theorem append_assoc (a b c : List Segment) : append (append a b) c = append a (append b c) := by
  have hpush : ∀ t x, append (pushText t x) c = pushText t (append x c) := by
    intro t x
    cases x with
    | nil => rfl
    | cons s rest =>
      cases s with
      | text u => exact (pushText_pushText t u _).symm
      | reference name raw fallback => rfl
      | call name args raw => rfl
  induction a with
  | nil => rfl
  | cons s rest ih =>
    cases s with
    | text t => rw [append, append, hpush, ih]
    | reference name raw fallback => exact congrArg _ ih
    | call name args raw => exact congrArg _ ih

/-- Behind the first segment is all that follows its first lexeme, or what follows a call. -/
theorem first_rest (isFunction : String → Bool) (l : Lexeme) (rest : List Lexeme) :
    (first isFunction l rest).2 = rest ∨
      ∃ inner, callAfter? rest = some (inner, (first isFunction l rest).2) := by
  unfold first
  split
  · exact Or.inl rfl
  · split <;> exact Or.inl rfl
  · split
    · next inner after hcall =>
      split
      · split <;> exact Or.inr ⟨inner, hcall⟩
      · split
        · exact Or.inr ⟨inner, hcall⟩
        · exact Or.inl rfl
    · exact Or.inl rfl
  · exact Or.inl rfl

/-- What is behind the first segment closes if the lexemes close. -/
theorem closes_first {depth : Nat} {l : Lexeme} {rest : List Lexeme}
    (h : Closes depth (l :: rest)) :
    Closes (Lexeme.depthAfter depth l) (first isFunction l rest).2 := by
  rcases first_rest isFunction l rest with hrest | ⟨inner, hcall⟩
  · rw [hrest]
    exact h.2
  · exact closes_after h.2 hcall

theorem first_append {depth : Nat} {l : Lexeme} {rest : List Lexeme} (h : Closes depth (l :: rest))
    {next : Lexeme} (hnext : next.kind ≠ .opening) (tail : List Lexeme) :
    first isFunction l (rest ++ next :: tail) =
      ((first isFunction l rest).1, (first isFunction l rest).2 ++ next :: tail) := by
  have hcall := callAfter?_append h.2 hnext tail
  cases hkind : l.kind with
  | name =>
    simp only [first, hkind, hcall]
    cases callAfter? rest with
    | none => rfl
    | some found =>
      simp only [Option.map_some]
      split
      · split <;> rfl
      · split <;> rfl
  | braced =>
    simp only [first, hkind]
    split <;> rfl
  | _ => simp only [first, hkind]

/-- **Lexemes that close are read on their own**, unless a parenthesis opens behind them, which could
    make a call of the name that they end with. -/
theorem ofLexemes_append {next : Lexeme} (hnext : next.kind ≠ .opening) (tail : List Lexeme) :
    ∀ {depth : Nat} {ls : List Lexeme}, Closes depth ls →
      ofLexemes isFunction (ls ++ next :: tail) =
        append (ofLexemes isFunction ls) (ofLexemes isFunction (next :: tail))
  | _, [], _ => by rw [ofLexemes_nil]; rfl
  | depth, l :: rest, h => by
    have hlength := (first_suffix isFunction l rest).length_le
    rw [List.cons_append, ofLexemes_cons, first_append h hnext tail,
      ofLexemes_append hnext tail (closes_first h), ofLexemes_cons isFunction l rest, append_assoc]
termination_by _ ls => ls.length
decreasing_by simp only [List.length_cons]; omega

end Segment

end Theming
