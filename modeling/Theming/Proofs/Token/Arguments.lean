import Theming.Proofs.Token.Verbatim

set_option autoImplicit false

/-! # Arguments of calls

The value that an argument is passed as. Blanks at its ends never matter: a single reference or call
between blanks keeps its type (`passed_of_trim`), and any other text is read as a literal, which is
trimmed (`passed_of_text`). -/

namespace Theming

open Text (isBlank IsTrimmed trimmed)

/-! ## Blanks that do not matter -/

namespace Text

theorem trim_blank_append {blanks : List Char} (h : ∀ c ∈ blanks, isBlank c = true)
    (s : List Char) : trim (blanks ++ s) = trim s := by
  have hdrop : blanks.dropWhile isBlank = [] := List.dropWhile_eq_nil_iff.2 h
  rw [trim, trim, trimStart, List.dropWhile_append, hdrop]
  rfl

theorem trim_append_blank {blanks : List Char} (h : ∀ c ∈ blanks, isBlank c = true)
    (s : List Char) : trim (s ++ blanks) = trim s := by
  obtain ⟨front, hfront, hblank⟩ := exists_blank_trimStart s
  have hend : ∀ t, trimEnd (t ++ blanks) = trimEnd t := by
    intro t
    have hdrop : blanks.reverse.dropWhile isBlank = [] :=
      List.dropWhile_eq_nil_iff.2 fun c hc => h c (List.mem_reverse.1 hc)
    rw [trimEnd_eq, trimEnd_eq, List.reverse_append, List.dropWhile_append, hdrop]
    rfl
  by_cases hempty : trimStart s = []
  · -- A blank text stays blank.
    have hblanks : ∀ c ∈ front ++ blanks, isBlank c = true :=
      List.forall_mem_append.2 ⟨hblank, h⟩
    rw [hfront, hempty, List.append_nil, trim, trim, trimStart_of_blank hblanks,
      trimStart_of_blank hblank]
  · have hstart : trimStart (s ++ blanks) = trimStart s ++ blanks := by
      have hsome : ¬ (s.dropWhile isBlank).isEmpty = true := fun h => hempty (List.isEmpty_iff.1 h)
      rw [trimStart, List.dropWhile_append, if_neg hsome]
      rfl
    rw [trim, hstart, hend, trim]

end Text

/-! ## Literals -/

namespace Value

theorem ofLiteral_trimmed (s : String) : ofLiteral (trimmed s) = ofLiteral s := by
  have hsame : Text.trim (trimmed s).toList = Text.trim s.toList := by
    rw [trimmed, String.toList_ofList, Text.trim_of_isTrimmed (Text.isTrimmed_trim s.toList)]
  rw [ofLiteral, ofLiteral, hsame]

theorem ofLiteral_congr {s t : String} (h : trimmed s = trimmed t) : ofLiteral s = ofLiteral t := by
  rw [← ofLiteral_trimmed s, h, ofLiteral_trimmed]

/-- A literal is shown without blanks at its ends. -/
theorem trimmed_display_ofLiteral (s : String) :
    trimmed (ofLiteral s).display = (ofLiteral s).display := by
  have hdisplay : IsTrimmed (ofLiteral s).display.toList := by
    rw [← ofLiteral_trimmed]
    have htrimmed := Segment.isTrimmed_trimmed s
    by_cases hsame : (ofLiteral (trimmed s)).display = trimmed s
    · rw [hsame]
      exact htrimmed
    · exact (isNumeral_of_display_ne htrimmed hsame).2.isTrimmed
  rw [trimmed, Text.trim_of_isTrimmed hdisplay, String.ofList_toList]

end Value

/-! ## Trimmed pieces -/

namespace Piece

/-- The text of several pieces. -/
def shown (pieces : List Piece) : String :=
  String.join (pieces.map (fun p => p.outcome.value.display))

theorem shown_cons (p : Piece) (rest : List Piece) :
    shown (p :: rest) = p.outcome.value.display ++ shown rest := by
  rw [shown, List.map_cons, String.join_cons]
  rfl

theorem shown_filter_isFilled (pieces : List Piece) :
    shown (pieces.filter isFilled) = shown pieces := by
  induction pieces with
  | nil => rfl
  | cons p rest ih =>
    by_cases hfilled : p.isFilled = true
    · rw [List.filter_cons_of_pos hfilled, shown_cons, shown_cons, ih]
    · have hempty : p.outcome.value.display = "" := by
        cases p with
        | text t => exact (by simpa [isFilled] using hfilled : t = "")
        | result outcome => exact absurd rfl hfilled
      rw [List.filter_cons_of_neg hfilled, shown_cons, hempty, String.empty_append, ih]

theorem exists_blank_trimFirst (pieces : List Piece) :
    ∃ blanks, (shown pieces).toList = blanks ++ (shown (trimFirst pieces)).toList ∧
      ∀ c ∈ blanks, isBlank c = true := by
  unfold trimFirst
  split
  · next t rest =>
    obtain ⟨blanks, hsplit, hblank⟩ := Text.exists_blank_trimStart t.toList
    refine ⟨blanks, ?_, hblank⟩
    rw [shown_cons, shown_cons, String.toList_append, String.toList_append]
    show t.toList ++ _ = blanks ++ ((String.ofList (Text.trimStart t.toList)).toList ++ _)
    rw [String.toList_ofList, ← List.append_assoc, ← hsplit]
  · exact ⟨[], rfl, by simp⟩

/-- Only the last piece is trimmed at the end. -/
theorem trimLast_cons_cons (p q : Piece) (rest : List Piece) :
    trimLast (p :: q :: rest) = p :: trimLast (q :: rest) := by
  cases p <;> rfl

theorem exists_trimLast_blank (pieces : List Piece) :
    ∃ blanks, (shown pieces).toList = (shown (trimLast pieces)).toList ++ blanks ∧
      ∀ c ∈ blanks, isBlank c = true := by
  induction pieces with
  | nil => exact ⟨[], rfl, by simp⟩
  | cons p rest ih =>
    cases rest with
    | nil =>
      cases p with
      | text t =>
        obtain ⟨blanks, hsplit, hblank⟩ := Text.exists_trimEnd_blank t.toList
        have hone : ∀ u : String, shown [.text u] = u := by
          intro u
          rw [shown_cons]
          exact String.append_empty
        refine ⟨blanks, ?_, hblank⟩
        rw [trimLast, hone, hone, String.toList_ofList]
        exact hsplit
      | result outcome => exact ⟨[], (List.append_nil _).symm, by simp⟩
    | cons q others =>
      obtain ⟨blanks, hsplit, hblank⟩ := ih
      refine ⟨blanks, ?_, hblank⟩
      rw [trimLast_cons_cons, shown_cons p, shown_cons p, String.toList_append,
        String.toList_append, hsplit, List.append_assoc]

/-- Trimming pieces drops blanks at the ends of their text only. -/
theorem trimmed_shown_trim (pieces : List Piece) :
    trimmed (shown (trim pieces)) = trimmed (shown pieces) := by
  obtain ⟨front, hfront, hblank⟩ := exists_blank_trimFirst pieces
  obtain ⟨back, hback, hblank'⟩ := exists_trimLast_blank (trimFirst pieces)
  rw [trim, shown_filter_isFilled, trimmed, trimmed, hfront, Text.trim_blank_append hblank, hback,
    Text.trim_append_blank hblank']

end Piece

namespace Segment

variable {scope : Scope} {functions : Functions} {mode : Mode}

/-! ## Trimmed segments -/

theorem evalList_eq_map (segments : List Segment) :
    evalList scope functions mode segments = segments.map (eval scope functions mode) := by
  induction segments with
  | nil => rfl
  | cons s rest ih => rw [evalList, ih, List.map_cons]

theorem evalList_trimFirst (segments : List Segment) :
    evalList scope functions mode (trimFirst segments) =
      Piece.trimFirst (evalList scope functions mode segments) := by
  cases segments with
  | nil => rfl
  | cons s rest => cases s <;> rfl

theorem evalList_trimLast (segments : List Segment) :
    evalList scope functions mode (trimLast segments) =
      Piece.trimLast (evalList scope functions mode segments) := by
  fun_induction trimLast segments with
  | case1 => rfl
  | case2 t => rfl
  | case3 s rest hlast ih =>
    rw [evalList, evalList, ih]
    cases rest with
    | nil =>
      cases s with
      | text t => exact absurd rfl (hlast t rfl)
      | reference name raw fallback => rfl
      | call name args raw => rfl
    | cons s' others => exact (Piece.trimLast_cons_cons _ _ _).symm

theorem evalList_filter_isFilled (segments : List Segment) :
    evalList scope functions mode (segments.filter isFilled) =
      (evalList scope functions mode segments).filter Piece.isFilled := by
  have hfilled : ∀ s : Segment, (s.eval scope functions mode).isFilled = s.isFilled := by
    intro s
    cases s <;> rfl
  rw [evalList_eq_map, evalList_eq_map, List.filter_map]
  congr 1
  exact List.filter_congr fun s _ => (hfilled s).symm

/-- Segments can be trimmed before they are evaluated. -/
theorem evalList_trim (segments : List Segment) :
    evalList scope functions mode (trim segments) =
      Piece.trim (evalList scope functions mode segments) := by
  rw [trim, evalList_filter_isFilled, evalList_trimLast, evalList_trimFirst, Piece.trim]

/-- Trimming segments drops blanks at the ends of their text only. -/
theorem trimmed_shown_trim (segments : List Segment) :
    trimmed (shown scope functions mode (trim segments)) =
      trimmed (shown scope functions mode segments) := by
  have htrim := Piece.trimmed_shown_trim (evalList scope functions mode segments)
  rw [← evalList_trim] at htrim
  exact htrim

/-! ## Arguments -/

/-- The value that an argument is passed as. -/
def passed (scope : Scope) (functions : Functions) (mode : Mode) (arg : List Segment) : Value :=
  (Piece.combine (Piece.trim (evalList scope functions mode arg))).value.argument

theorem evalArgs_eq_map (args : List (List Segment)) :
    evalArgs scope functions mode args =
      args.map (fun arg => Piece.combine (Piece.trim (evalList scope functions mode arg))) := by
  induction args with
  | nil => rfl
  | cons arg rest ih => rw [evalArgs, ih, List.map_cons]

theorem map_argument_evalArgs (args : List (List Segment)) :
    (evalArgs scope functions mode args).map (fun o => o.value.argument) =
      args.map (passed scope functions mode) := by
  rw [evalArgs_eq_map, List.map_map]
  rfl

theorem passed_of_trim (arg : List Segment) :
    passed scope functions mode arg =
      (Piece.combine (evalList scope functions mode (trim arg))).value.argument := by
  rw [passed, evalList_trim]

/-- An argument that yields a text is passed as the literal that the text spells. -/
theorem passed_of_text {arg : List Segment} {t : String}
    (h : (Piece.combine (evalList scope functions mode (trim arg))).value = .str t) :
    passed scope functions mode arg = .ofLiteral (shown scope functions mode arg) := by
  have ht : t = shown scope functions mode (trim arg) := by
    have hdisplay := Piece.display_combine (evalList scope functions mode (trim arg))
    rw [h] at hdisplay
    exact hdisplay
  rw [passed_of_trim, h, Value.argument, ht]
  exact Value.ofLiteral_congr (trimmed_shown_trim arg)

end Segment

end Theming
