import Theming.Proofs.Sheet.Cutting
import Theming.Sheet.Outline

set_option autoImplicit false

/-! # Statements and heads in an outline

What stands in one statement, or in front of the brace of one block, is a run of tokens without
braces and with semicolons inside parentheses only (`Token.Flowing`). The outline of tokens consists
of such runs (`sane_outline`), and taking such a run in again leaves it in one piece
(`Draft.foldl_flowing`). -/

namespace Theming.Sheet

namespace Token

/-! ## Parentheses -/

/-- The nesting depth of parentheses after a token of a kind. -/
def Kind.depthAfter (depth : Nat) : Kind → Nat
  | .parenOpen => depth + 1
  | .parenClose => depth - 1
  | _ => depth

theorem depthAfter_eq (depth : Nat) (t : Token) : depthAfter depth t = t.kind.depthAfter depth := by
  unfold depthAfter Kind.depthAfter
  cases t.kind <;> rfl

/-- The kinds of tokens. -/
def kinds (ts : List Token) : List Kind := ts.map (·.kind)

theorem kinds_append_cons (ts us : List Token) (t : Token) :
    kinds (ts ++ t :: us) = kinds ts ++ t.kind :: kinds us := List.map_append

/-- The nesting depth of parentheses after tokens of some kinds. -/
def depthOver (depth : Nat) (ks : List Kind) : Nat := ks.foldl Kind.depthAfter depth

theorem depthOver_append (depth : Nat) (ks ls : List Kind) :
    depthOver depth (ks ++ ls) = depthOver (depthOver depth ks) ls := List.foldl_append

theorem foldl_depthAfter (depth : Nat) (ts : List Token) :
    ts.foldl depthAfter depth = depthOver depth (kinds ts) := by
  rw [depthOver, kinds, List.foldl_map]
  congr 1

/-- Tokens of the kind stand inside parentheses only. -/
def Shielded (kind : Kind) : Nat → List Kind → Prop
  | _, [] => True
  | depth, k :: rest => (k = kind → depth ≠ 0) ∧ Shielded kind (k.depthAfter depth) rest

theorem shielded_append {kind : Kind} {depth : Nat} {ks ls : List Kind} :
    Shielded kind depth (ks ++ ls) ↔
      Shielded kind depth ks ∧ Shielded kind (depthOver depth ks) ls := by
  induction ks generalizing depth with
  | nil => exact ⟨fun h => ⟨trivial, h⟩, fun h => h.2⟩
  | cons k rest ih =>
    rw [List.cons_append, Shielded, Shielded, ih, and_assoc]
    rfl

/-- Comments do not count. -/
theorem depthOver_filter (depth : Nat) (ks : List Kind) :
    depthOver depth (ks.filter (· ≠ .comment)) = depthOver depth ks := by
  induction ks generalizing depth with
  | nil => rfl
  | cons k rest ih =>
    by_cases hk : k = .comment
    · subst hk
      exact ih depth
    · rw [List.filter_cons_of_pos (by simpa using hk)]
      exact ih (k.depthAfter depth)

theorem Shielded.filter {kind : Kind} {depth : Nat} {ks : List Kind} (h : Shielded kind depth ks) :
    Shielded kind depth (ks.filter (· ≠ .comment)) := by
  induction ks generalizing depth with
  | nil => trivial
  | cons k rest ih =>
    by_cases hk : k = .comment
    · subst hk
      exact ih h.2
    · rw [List.filter_cons_of_pos (by simpa using hk)]
      exact ⟨h.1, ih h.2⟩

/-! ## Cutting and splitting -/

/-- What is cut off in front of the first token of a kind outside parentheses. -/
theorem cutAt_some {kind : Kind} {depth : Nat} {ts before after : List Token}
    (h : cutAt kind depth ts = (before, some after)) :
    ∃ t, ts = before ++ t :: after ∧ t.kind = kind ∧ Shielded kind depth (kinds before) ∧
      depthOver depth (kinds before) = 0 := by
  induction ts generalizing depth before with
  | nil => cases h
  | cons t rest ih =>
    rw [cutAt] at h
    split at h
    · next hcut =>
      obtain ⟨rfl, hafter⟩ := Prod.mk.inj h
      obtain rfl := Option.some.inj hafter
      exact ⟨t, rfl, hcut.1, trivial, hcut.2⟩
    · next hcut =>
      obtain ⟨rfl, hafter⟩ := Prod.mk.inj h
      obtain ⟨u, hrest, hkind, hshielded, hdepth⟩ := ih (Prod.ext rfl hafter)
      rw [depthAfter_eq] at hshielded hdepth
      exact ⟨u, congrArg (t :: ·) hrest, hkind, ⟨fun hk hzero => hcut ⟨hk, hzero⟩, hshielded⟩,
        hdepth⟩

theorem cutAt_append {kind : Kind} {depth : Nat} {before : List Token} {t : Token}
    (hshielded : Shielded kind depth (kinds before)) (hdepth : depthOver depth (kinds before) = 0)
    (hkind : t.kind = kind) (after : List Token) :
    cutAt kind depth (before ++ t :: after) = (before, some after) := by
  induction before generalizing depth with
  | nil =>
    have hzero : depth = 0 := hdepth
    rw [List.nil_append, cutAt, if_pos ⟨hkind, hzero⟩]
  | cons u rest ih =>
    have hcut : ¬ (u.kind = kind ∧ depth = 0) := fun hc => hshielded.1 hc.1 hc.2
    have hrest : cutAt kind (depthAfter depth u) (rest ++ t :: after) = (rest, some after) :=
      ih (by rw [depthAfter_eq]; exact hshielded.2) (by rw [depthAfter_eq]; exact hdepth)
    rw [List.cons_append, cutAt, if_neg hcut, hrest]

theorem splitAt_of_shielded {kind : Kind} {depth : Nat} {ts : List Token}
    (h : Shielded kind depth (kinds ts)) : splitAt kind depth ts = [ts] := by
  induction ts generalizing depth with
  | nil => rfl
  | cons t rest ih =>
    have hrest : splitAt kind (depthAfter depth t) rest = [rest] :=
      ih (by rw [depthAfter_eq]; exact h.2)
    rw [splitAt, if_neg (fun hc => h.1 hc.1 hc.2), hrest]

theorem splitAt_append {kind : Kind} {depth : Nat} {before : List Token} {t : Token}
    (hshielded : Shielded kind depth (kinds before)) (hdepth : depthOver depth (kinds before) = 0)
    (hkind : t.kind = kind) (after : List Token) :
    splitAt kind depth (before ++ t :: after) = before :: splitAt kind 0 after := by
  induction before generalizing depth with
  | nil =>
    have hzero : depth = 0 := hdepth
    rw [List.nil_append, splitAt, if_pos ⟨hkind, hzero⟩]
  | cons u rest ih =>
    have hrest : splitAt kind (depthAfter depth u) (rest ++ t :: after) =
        rest :: splitAt kind 0 after :=
      ih (by rw [depthAfter_eq]; exact hshielded.2) (by rw [depthAfter_eq]; exact hdepth)
    rw [List.cons_append, splitAt, if_neg (fun hc => hshielded.1 hc.1 hc.2), hrest]

/-- The parts of a split: there is nothing to split at, or a first part ends where all its
    parentheses are closed. -/
theorem splitAt_cases (kind : Kind) (depth : Nat) (ts : List Token) :
    (Shielded kind depth (kinds ts) ∧ splitAt kind depth ts = [ts]) ∨
      ∃ before t after, ts = before ++ t :: after ∧ t.kind = kind ∧
        Shielded kind depth (kinds before) ∧ depthOver depth (kinds before) = 0 ∧
        splitAt kind depth ts = before :: splitAt kind 0 after := by
  induction ts generalizing depth with
  | nil => exact Or.inl ⟨trivial, rfl⟩
  | cons t rest ih =>
    by_cases hcut : t.kind = kind ∧ depth = 0
    · refine Or.inr ⟨[], t, rest, rfl, hcut.1, trivial, hcut.2, ?_⟩
      rw [splitAt, if_pos hcut]
    · have hself : t.kind = kind → depth ≠ 0 := fun hk hzero => hcut ⟨hk, hzero⟩
      rcases ih (depthAfter depth t) with
        ⟨hshielded, hsplit⟩ | ⟨before, u, after, rfl, hkind, hshielded, hdepth, hsplit⟩
      · left
        rw [depthAfter_eq] at hshielded
        exact ⟨⟨hself, hshielded⟩, by rw [splitAt, if_neg hcut, hsplit]⟩
      · right
        rw [depthAfter_eq] at hshielded hdepth
        exact ⟨t :: before, u, after, rfl, hkind, ⟨hself, hshielded⟩, hdepth,
          by rw [splitAt, if_neg hcut, hsplit]⟩

/-! ## Statements and heads -/

/-- What can stand in one statement or head: no braces, and semicolons inside parentheses only. -/
structure Flowing (depth : Nat) (ks : List Kind) : Prop where
  braces : ∀ k ∈ ks, k ≠ .braceOpen ∧ k ≠ .braceClose
  semicolons : Shielded .semicolon depth ks

theorem flowing_append {depth : Nat} {ks ls : List Kind} :
    Flowing depth (ks ++ ls) ↔ Flowing depth ks ∧ Flowing (depthOver depth ks) ls := by
  constructor
  · rintro ⟨hbraces, hsemicolons⟩
    obtain ⟨hks, hls⟩ := shielded_append.1 hsemicolons
    exact ⟨⟨fun k hk => hbraces k (List.mem_append_left ls hk), hks⟩,
      ⟨fun k hk => hbraces k (List.mem_append_right ks hk), hls⟩⟩
  · rintro ⟨⟨hbraces, hks⟩, ⟨hbraces', hls⟩⟩
    exact ⟨fun k hk => (List.mem_append.1 hk).elim (hbraces k) (hbraces' k),
      shielded_append.2 ⟨hks, hls⟩⟩

theorem Flowing.filter {depth : Nat} {ks : List Kind} (h : Flowing depth ks) :
    Flowing depth (ks.filter (· ≠ .comment)) where
  braces k hk := h.braces k (List.mem_filter.1 hk).1
  semicolons := h.semicolons.filter

end Token

open Token (Flowing kinds depthOver)

namespace Draft

/-! ## Taking tokens in -/

theorem step_push {d : Draft} {t : Token} (hbraces : t.kind ≠ .braceOpen ∧ t.kind ≠ .braceClose)
    (hsemicolon : t.kind = .semicolon → d.depth ≠ 0)
    (hcomment : t.kind = .comment → d.pending ≠ []) : d.step t = d.push t := by
  unfold step
  split
  · next hkind => exact absurd hkind hbraces.1
  · next hkind => exact absurd hkind hbraces.2
  · next hkind => rw [if_neg (hsemicolon hkind)]
  · next hkind => rw [if_neg (by simpa using hcomment hkind)]
  · rfl

/-- What can stand in one statement stays together. -/
theorem foldl_flowing {ts : List Token} {d : Draft} (h : Flowing d.depth (kinds ts))
    (hcomment : ∀ t ∈ ts, t.kind ≠ .comment) :
    ts.foldl step d =
      ⟨d.frames, d.chunks, ts.reverse ++ d.pending, depthOver d.depth (kinds ts)⟩ := by
  induction ts generalizing d with
  | nil => rfl
  | cons t rest ih =>
    have hstep : d.step t = d.push t :=
      step_push (h.braces t.kind List.mem_cons_self) h.semicolons.1
        (fun hc => absurd hc (hcomment t List.mem_cons_self))
    have hdepth : (d.push t).depth = t.kind.depthAfter d.depth := Token.depthAfter_eq d.depth t
    have hrest : Flowing (d.push t).depth (kinds rest) := by
      rw [hdepth]
      exact ⟨fun k hk => h.braces k (List.mem_cons_of_mem _ hk), h.semicolons.2⟩
    rw [List.foldl_cons, hstep, ih hrest (fun u hu => hcomment u (List.mem_cons_of_mem t hu)),
      hdepth, List.reverse_cons, List.append_assoc]
    rfl

end Draft

/-! ## What an outline consists of -/

/-- A run of tokens that can stand in one statement or head, with no comment in front. -/
structure Phrase (ts : List Token) : Prop where
  run : Token.Run ts
  flowing : Flowing 0 (kinds ts)
  head : ∀ t, ts.head? = some t → t.kind ≠ .comment

/-- Statements and heads are phrases, and comments are comments. -/
inductive Chunk.Sane : Chunk → Prop
  | comment {t : Token} (hkind : t.kind = .comment) (hrun : Token.Run [t]) : Sane (.comment t)
  | statement {ts : List Token} (h : Phrase ts) (hne : ts ≠ []) : Sane (.statement ts)
  | block {head : List Token} {brace : Token} {body : List Chunk} {closed : Bool}
    (hhead : Phrase head) (hbody : ∀ c ∈ body, c.Sane) : Sane (.block head brace body closed)
  | stray (t : Token) : Sane (.stray t)

namespace Draft

/-- The draft is in order in front of the tokens that are left. -/
structure Sane (d : Draft) (rest : List Token) : Prop where
  run : Token.Run (d.pending.reverse ++ rest)
  flowing : Flowing 0 (kinds d.pending.reverse)
  head : ∀ t, d.pending.reverse.head? = some t → t.kind ≠ .comment
  depth : d.depth = depthOver 0 (kinds d.pending.reverse)
  chunks : ∀ c ∈ d.chunks, c.Sane
  frames : ∀ f ∈ d.frames, Phrase f.head ∧ ∀ c ∈ f.before, c.Sane

variable {d : Draft} {t : Token} {rest : List Token}

theorem Sane.phrase (h : d.Sane rest) : Phrase d.pending.reverse :=
  ⟨(Token.run_append h.run).1, h.flowing, h.head⟩

theorem Sane.rest_run (h : d.Sane rest) : Token.Run rest := (Token.run_append h.run).2

theorem sane_push (h : d.Sane (t :: rest))
    (hbraces : t.kind ≠ .braceOpen ∧ t.kind ≠ .braceClose)
    (hsemicolon : t.kind = .semicolon → d.depth ≠ 0)
    (hcomment : t.kind = .comment → d.pending ≠ []) : (d.push t).Sane rest := by
  have hpending : (d.push t).pending.reverse = d.pending.reverse ++ [t] := List.reverse_cons
  have hkinds : kinds (d.pending.reverse ++ [t]) = kinds d.pending.reverse ++ [t.kind] :=
    List.map_append
  refine ⟨?_, ?_, ?_, ?_, h.chunks, h.frames⟩
  · rw [hpending, List.append_assoc]
    exact h.run
  · rw [hpending, hkinds, Token.flowing_append, ← h.depth]
    refine ⟨h.flowing, ⟨fun k hk => ?_, hsemicolon, trivial⟩⟩
    rw [List.mem_singleton.1 hk]
    exact hbraces
  · rw [hpending]
    cases hbefore : d.pending.reverse with
    | nil =>
      intro u hu hkind
      obtain rfl : t = u := Option.some.inj hu
      exact hcomment hkind (List.reverse_eq_nil_iff.1 hbefore)
    | cons u more =>
      have hhead := h.head
      rwa [hbefore] at hhead
  · rw [hpending, hkinds, Token.depthOver_append, ← h.depth]
    exact Token.depthAfter_eq d.depth t

/-- A draft with nothing pending is in order if its parts are. -/
theorem sane_idle (hrun : Token.Run rest) {frames : List Frame} {chunks : List Chunk}
    (hchunks : ∀ c ∈ chunks, c.Sane)
    (hframes : ∀ f ∈ frames, Phrase f.head ∧ ∀ c ∈ f.before, c.Sane) :
    Sane ⟨frames, chunks, [], 0⟩ rest :=
  ⟨hrun, ⟨fun _ hk => (by cases hk), trivial⟩, fun _ hu => (by cases hu), rfl, hchunks, hframes⟩

/-- Ending the statement leaves nothing pending. -/
theorem sane_flush (h : d.Sane rest) :
    ∃ chunks, d.flush = ⟨d.frames, chunks, [], 0⟩ ∧ ∀ c ∈ chunks, c.Sane := by
  cases hpending : d.pending with
  | nil =>
    refine ⟨d.chunks, ?_, h.chunks⟩
    have hdepth := h.depth
    rw [hpending] at hdepth
    unfold flush
    rw [hpending]
    obtain ⟨frames, chunks, pending, depth⟩ := d
    dsimp only at hpending hdepth
    rw [hpending, hdepth]
    rfl
  | cons t more =>
    have hphrase := h.phrase
    rw [hpending] at hphrase
    refine ⟨.statement (t :: more).reverse :: d.chunks, ?_,
      List.forall_mem_cons.2 ⟨.statement hphrase (by simp), h.chunks⟩⟩
    unfold flush
    rw [hpending]

theorem sane_step (h : d.Sane (t :: rest)) : (d.step t).Sane rest := by
  have hrest : Token.Run rest := h.rest_run.2.2
  by_cases hopen : t.kind = .braceOpen
  · have hstep : d.step t = d.openBlock t := by rw [step, hopen]
    rw [hstep]
    exact sane_idle hrest (fun _ hc => by cases hc)
      (List.forall_mem_cons.2 ⟨⟨h.phrase, h.chunks⟩, h.frames⟩)
  by_cases hclose : t.kind = .braceClose
  · have hstep : d.step t = d.flush.closeBlock t := by rw [step, hclose]
    obtain ⟨chunks, hflush, hchunks⟩ := sane_flush h
    rw [hstep, hflush]
    unfold closeBlock
    dsimp only
    split
    · exact sane_idle hrest (List.forall_mem_cons.2 ⟨.stray t, hchunks⟩) h.frames
    · next f frames hframes =>
      have hall := h.frames
      rw [hframes] at hall
      obtain ⟨⟨hhead, hbefore⟩, hframes⟩ := List.forall_mem_cons.1 hall
      have hblock : Chunk.Sane (.block f.head f.brace chunks.reverse true) :=
        .block hhead (fun c hc => hchunks c (List.mem_reverse.1 hc))
      exact sane_idle hrest (List.forall_mem_cons.2 ⟨hblock, hbefore⟩) hframes
  by_cases hsemicolon : t.kind = .semicolon ∧ d.depth = 0
  · have hstep : d.step t = d.flush := by rw [step, hsemicolon.1]; exact if_pos hsemicolon.2
    obtain ⟨chunks, hflush, hchunks⟩ := sane_flush h
    rw [hstep, hflush]
    exact sane_idle hrest hchunks h.frames
  by_cases hcomment : t.kind = .comment ∧ d.pending = []
  · have hstep : d.step t = d.add (.comment t) := by
      rw [step, hcomment.1]
      exact if_pos (by rw [hcomment.2]; rfl)
    have hself : Token.Run [t] := ⟨h.rest_run.1, trivial, trivial⟩
    have hchunks : ∀ c ∈ Chunk.comment t :: d.chunks, c.Sane :=
      List.forall_mem_cons.2 ⟨.comment hcomment.1 hself, h.chunks⟩
    have hdepth : d.depth = 0 := by
      rw [h.depth, hcomment.2]
      rfl
    rw [hstep, add, hcomment.2, hdepth]
    exact sane_idle hrest hchunks h.frames
  · rw [step_push ⟨hopen, hclose⟩ (fun hkind hzero => hsemicolon ⟨hkind, hzero⟩)
      (fun hkind hempty => hcomment ⟨hkind, hempty⟩)]
    exact sane_push h ⟨hopen, hclose⟩ (fun hkind hzero => hsemicolon ⟨hkind, hzero⟩)
      (fun hkind hempty => hcomment ⟨hkind, hempty⟩)

theorem sane_closeAll {frames : List Frame} {chunks : List Chunk} (hchunks : ∀ c ∈ chunks, c.Sane)
    (hframes : ∀ f ∈ frames, Phrase f.head ∧ ∀ c ∈ f.before, c.Sane) :
    ∀ c ∈ closeAll frames chunks, c.Sane := by
  induction frames generalizing chunks with
  | nil => exact fun c hc => hchunks c (List.mem_reverse.1 hc)
  | cons f rest ih =>
    obtain ⟨⟨hhead, hbefore⟩, hrest⟩ := List.forall_mem_cons.1 hframes
    have hblock : Chunk.Sane (.block f.head f.brace chunks.reverse false) :=
      .block hhead (fun c hc => hchunks c (List.mem_reverse.1 hc))
    exact ih (List.forall_mem_cons.2 ⟨hblock, hbefore⟩) hrest

theorem sane_finish (h : d.Sane []) : ∀ c ∈ d.finish, c.Sane := by
  obtain ⟨chunks, hflush, hchunks⟩ := sane_flush h
  unfold finish
  rw [hflush]
  exact sane_closeAll hchunks h.frames

theorem sane_foldl {ts : List Token} (h : d.Sane ts) : (ts.foldl step d).Sane [] := by
  induction ts generalizing d with
  | nil => exact h
  | cons t rest ih => exact ih (sane_step h)

end Draft

/-- **The outline of a run** is made of statements and heads that are phrases. -/
theorem sane_outline {ts : List Token} (h : Token.Run ts) : ∀ c ∈ outline ts, c.Sane :=
  Draft.sane_finish (Draft.sane_foldl
    (Draft.sane_idle h (fun _ hc => by cases hc) (fun _ hf => by cases hf)))

end Theming.Sheet
