import Theming.Sheet.Reading

set_option autoImplicit false

/-! # Braces that match

Braces are matched by a stack: a closing brace takes the innermost one that is open
(`Token.afterBrace`). An outline keeps its open blocks in the same way, whatever stands between the
braces, and a fault of a brace is found when its token is taken, but for those of blocks that are
still open at the end. So these faults can be told from the stack alone, in their order
(`filter_faults`).

The main result is `brace_faults_exact`. -/

namespace Theming.Sheet

/-! ## Matching by a stack -/

namespace Token

/-- The open braces after a token, innermost first. -/
def afterBrace (outer : List Token) (t : Token) : List Token :=
  match t.kind with
  | .braceOpen => t :: outer
  | .braceClose => outer.tail
  | _ => outer

/-- Each token with the braces that are open in front of it, innermost first. -/
def withOuter : List Token → List Token → List (Token × List Token)
  | _, [] => []
  | outer, t :: rest => (t, outer) :: withOuter (afterBrace outer t) rest

/-- The braces that are open at the end, innermost first, each with those around it. -/
def leftOpen : List Token → List (Token × List Token)
  | [] => []
  | t :: outer => (t, outer) :: leftOpen outer

/-- The closing braces that match none. -/
def strayBraces (ts : List Token) : List Token :=
  ((withOuter [] ts).filter (fun (t, outer) => t.kind = .braceClose ∧ outer = [])).map (·.1)

/-- The opening braces inside exactly as many blocks as are read inside one another. -/
def deepBraces (ts : List Token) : List Token :=
  ((withOuter [] ts).filter
    (fun (t, outer) => t.kind = .braceOpen ∧ outer.length = maxNesting)).map (·.1)

/-- The opening braces that match none, inside no more blocks than are read inside one another,
    innermost first. -/
def unclosedBraces (ts : List Token) : List Token :=
  ((leftOpen (ts.foldl afterBrace [])).filter (fun (_, outer) => outer.length ≤ maxNesting)).map
    (·.1)

/-- Tokens whose braces match, with no more than `n` blocks inside one another. -/
inductive Nested : Nat → List Token → Prop
  | nil {n : Nat} : Nested n []
  | cons {n : Nat} {t : Token} {ts : List Token} (hopen : t.kind ≠ .braceOpen)
      (hclose : t.kind ≠ .braceClose) (hrest : Nested n ts) : Nested n (t :: ts)
  | block {n : Nat} {o c : Token} {body ts : List Token} (hopen : o.kind = .braceOpen)
      (hbody : Nested n body) (hclose : c.kind = .braceClose) (hrest : Nested (n + 1) ts) :
      Nested (n + 1) (o :: (body ++ c :: ts))

end Token

/-! ## Faults of braces -/

/-- Where a closing brace is that matches none. -/
def Fault.strayAt? : Fault → Option Nat
  | .strayBrace p => some p
  | _ => none

/-- Where a block starts that is nested too deeply. -/
def Fault.tooDeepAt? : Fault → Option Nat
  | .tooDeep p => some p
  | _ => none

/-- Where a block starts that is not closed. -/
def Fault.unclosedAt? : Fault → Option Nat
  | .unclosedBlock p => some p
  | _ => none

/-- Whether a fault is that of a brace. -/
def Fault.isBrace : Fault → Bool
  | .strayBrace _ | .tooDeep _ | .unclosedBlock _ => true
  | _ => false

/-- The fault that is found when a token is taken. -/
def faultAt? : Token × List Token → Option Fault
  | (t, outer) =>
    match t.kind with
    | .braceOpen => if outer.length = maxNesting then some (.tooDeep t.start) else none
    | .braceClose => if outer = [] then some (.strayBrace t.start) else none
    | _ => none

/-- The fault of a brace that is left open. -/
def faultLeft? : Token × List Token → Option Fault
  | (t, outer) => if outer.length ≤ maxNesting then some (.unclosedBlock t.start) else none

namespace Token

variable {t : Token} {outer : List Token}

theorem afterBrace_open (h : t.kind = .braceOpen) : afterBrace outer t = t :: outer := by
  rw [afterBrace, h]

theorem afterBrace_close (h : t.kind = .braceClose) : afterBrace outer t = outer.tail := by
  rw [afterBrace, h]

theorem afterBrace_other (hopen : t.kind ≠ .braceOpen) (hclose : t.kind ≠ .braceClose) :
    afterBrace outer t = outer := by
  unfold afterBrace
  split
  · next h => exact absurd h hopen
  · next h => exact absurd h hclose
  · rfl

theorem faultAt?_open (h : t.kind = .braceOpen) : faultAt? (t, outer) =
    if outer.length = maxNesting then some (.tooDeep t.start) else none := by
  rw [faultAt?, h]

theorem faultAt?_close (h : t.kind = .braceClose) : faultAt? (t, outer) =
    if outer = [] then some (.strayBrace t.start) else none := by
  rw [faultAt?, h]

theorem faultAt?_other (hopen : t.kind ≠ .braceOpen) (hclose : t.kind ≠ .braceClose) :
    faultAt? (t, outer) = none := by
  unfold faultAt?
  dsimp only
  split
  · next h => exact absurd h hopen
  · next h => exact absurd h hclose
  · rfl

end Token

mutual

/-- The faults of braces in a chunk inside `depth` blocks. -/
def Chunk.braceFaults (depth : Nat) : Chunk → List Fault
  | .stray t => if depth ≤ maxNesting then [.strayBrace t.start] else []
  | .block _ brace body closed =>
    (if depth = maxNesting then [.tooDeep brace.start] else []) ++
      Chunk.braceFaultsAll (depth + 1) body ++
      if depth ≤ maxNesting then closingFaults brace closed else []
  | .comment _ | .statement _ => []
termination_by structural c => c

/-- The faults of braces in several chunks. -/
def Chunk.braceFaultsAll (depth : Nat) : List Chunk → List Fault
  | [] => []
  | c :: rest => c.braceFaults depth ++ Chunk.braceFaultsAll depth rest
termination_by structural chunks => chunks

end

theorem Chunk.braceFaultsAll_append (depth : Nat) (a b : List Chunk) :
    Chunk.braceFaultsAll depth (a ++ b) =
      Chunk.braceFaultsAll depth a ++ Chunk.braceFaultsAll depth b := by
  induction a with
  | nil => rfl
  | cons c rest ih => rw [List.cons_append, braceFaultsAll, braceFaultsAll, ih, List.append_assoc]

mutual

/-- Nothing is found inside blocks that are skipped. -/
theorem Chunk.braceFaults_of_lt {depth : Nat} (h : maxNesting < depth) : ∀ c : Chunk,
    c.braceFaults depth = []
  | .comment t => rfl
  | .statement ts => rfl
  | .stray t => if_neg (Nat.not_le.2 h)
  | .block head brace body closed => by
    rw [braceFaults, if_neg (Nat.ne_of_gt h), if_neg (Nat.not_le.2 h),
      braceFaultsAll_of_lt (Nat.lt_succ_of_lt h) body]
    rfl
termination_by structural c => c

theorem Chunk.braceFaultsAll_of_lt {depth : Nat} (h : maxNesting < depth) : ∀ chunks : List Chunk,
    Chunk.braceFaultsAll depth chunks = []
  | [] => rfl
  | c :: rest => by rw [braceFaultsAll, braceFaults_of_lt h c, braceFaultsAll_of_lt h rest]; rfl
termination_by structural chunks => chunks

end

/-! ## Faults that are read -/

theorem filter_closingFaults (brace : Token) (closed : Bool) :
    (closingFaults brace closed).filter Fault.isBrace = closingFaults brace closed := by
  cases closed <;> rfl

theorem filter_readStatement (ts : List Token) :
    (readStatement ts).faults.filter Fault.isBrace = [] := by
  cases ts with
  | nil => rfl
  | cons t rest =>
    rw [readStatement]
    split
    · rfl
    · unfold readDeclaration
      split <;> dsimp only <;> split <;> rfl

/-- The head of a block has no fault of a brace. -/
theorem filter_readBlock (head : List Token) (brace : Token) (body : Reading) :
    (readBlock head brace body).faults.filter Fault.isBrace = body.faults.filter Fault.isBrace := by
  cases head with
  | nil => rfl
  | cons t rest =>
    rw [readBlock]
    split
    · rfl
    · split <;> rfl

mutual

/-- What is read has the faults of braces that the chunk has. -/
theorem Chunk.filter_read {depth : Nat} (h : depth ≤ maxNesting) : ∀ c : Chunk,
    (c.read depth).faults.filter Fault.isBrace = c.braceFaults depth
  | .comment t => by
    rw [Chunk.read, readComment]
    split <;> rfl
  | .statement ts => filter_readStatement ts
  | .stray t => (if_pos h).symm
  | .block head brace body closed => by
    rw [Chunk.read, braceFaults, if_pos h]
    by_cases hdeep : maxNesting ≤ depth
    · -- The block is skipped.
      have heq : depth = maxNesting := Nat.le_antisymm h hdeep
      rw [if_pos hdeep, if_pos heq, Chunk.braceFaultsAll_of_lt (by omega), List.append_nil]
      exact congrArg (Fault.tooDeep brace.start :: ·) (filter_closingFaults brace closed)
    · rw [if_neg hdeep, if_neg (by omega), List.nil_append, Reading.append, List.filter_append,
        filter_readBlock, filter_closingFaults, Chunk.filter_readAll (by omega) body]
termination_by structural c => c

theorem Chunk.filter_readAll {depth : Nat} (h : depth ≤ maxNesting) : ∀ chunks : List Chunk,
    (Chunk.readAll depth chunks).faults.filter Fault.isBrace = Chunk.braceFaultsAll depth chunks
  | [] => rfl
  | c :: rest => by
    rw [Chunk.readAll, Reading.append, List.filter_append, Chunk.filter_read h c,
      Chunk.filter_readAll h rest, braceFaultsAll]
termination_by structural chunks => chunks

end

/-! ## Faults of drafts -/

namespace Draft

/-- The braces of open blocks, innermost first. -/
def braces (frames : List Frame) : List Token := frames.map Frame.brace

/-- The faults of braces in front of the chunks of the innermost open block. -/
def braceFaultsBefore : List Frame → List Fault
  | [] => []
  | f :: frames =>
    braceFaultsBefore frames ++ Chunk.braceFaultsAll frames.length f.before.reverse ++
      if frames.length = maxNesting then [.tooDeep f.brace.start] else []

/-- The faults of braces that were found. -/
def braceFaults (frames : List Frame) (chunks : List Chunk) : List Fault :=
  braceFaultsBefore frames ++ Chunk.braceFaultsAll frames.length chunks.reverse

theorem braceFaults_chunk (frames : List Frame) (chunk : Chunk) (chunks : List Chunk) :
    braceFaults frames (chunk :: chunks) =
      braceFaults frames chunks ++ chunk.braceFaults frames.length := by
  rw [braceFaults, braceFaults, List.reverse_cons, Chunk.braceFaultsAll_append,
    Chunk.braceFaultsAll, Chunk.braceFaultsAll, List.append_nil, List.append_assoc]

/-- Ending a block adds the fault of a brace that is left open, and no other. -/
theorem braceFaults_end (f : Frame) (frames : List Frame) (chunks : List Chunk) (closed : Bool) :
    braceFaults frames (.block f.head f.brace chunks.reverse closed :: f.before) =
      braceFaults (f :: frames) chunks ++
        if frames.length ≤ maxNesting then closingFaults f.brace closed else [] := by
  rw [braceFaults_chunk, Chunk.braceFaults, braceFaults, braceFaults, braceFaultsBefore,
    List.length_cons]
  simp only [List.append_assoc]

theorem braceFaults_flush (d : Draft) :
    d.flush.frames = d.frames ∧
      braceFaults d.flush.frames d.flush.chunks = braceFaults d.frames d.chunks := by
  obtain ⟨frames, chunks, pending, depth⟩ := d
  cases pending with
  | nil => exact ⟨rfl, rfl⟩
  | cons t rest =>
    refine ⟨rfl, ?_⟩
    rw [flush, braceFaults_chunk, Chunk.braceFaults, List.append_nil]

/-- **One token** moves the stack of open blocks as the stack of braces, and adds the fault that is
    found there. -/
theorem braceFaults_step (d : Draft) (t : Token) :
    braces (d.step t).frames = Token.afterBrace (braces d.frames) t ∧
      braceFaults (d.step t).frames (d.step t).chunks =
        braceFaults d.frames d.chunks ++ (faultAt? (t, braces d.frames)).toList := by
  unfold step
  split
  · next hkind =>
    have hlength : (braces d.frames).length = d.frames.length := List.length_map Frame.brace
    rw [Token.afterBrace_open hkind, Token.faultAt?_open hkind, hlength]
    refine ⟨rfl, ?_⟩
    rw [openBlock, braceFaults, braceFaultsBefore, List.reverse_nil, Chunk.braceFaultsAll,
      List.append_nil, braceFaults]
    split <;> rfl
  · next hkind =>
    obtain ⟨hframes, hfaults⟩ := braceFaults_flush d
    rw [Token.afterBrace_close hkind, Token.faultAt?_close hkind, ← hfaults, ← hframes, closeBlock]
    split
    · next hnone =>
      rw [add, braceFaults_chunk, hnone]
      exact ⟨rfl, rfl⟩
    · next f frames hsome =>
      have hbraces : braces (f :: frames) ≠ [] := List.cons_ne_nil _ _
      rw [braceFaults_end, hsome, if_neg hbraces]
      exact ⟨rfl, by simp [closingFaults]⟩
  all_goals
    rw [Token.faultAt?_other (by simp_all) (by simp_all),
      Token.afterBrace_other (by simp_all) (by simp_all), Option.toList_none, List.append_nil]
  · split
    · obtain ⟨hframes, hfaults⟩ := braceFaults_flush d
      exact ⟨by rw [hframes], hfaults⟩
    · exact ⟨rfl, rfl⟩
  · split
    · exact ⟨rfl, by rw [add, braceFaults_chunk, Chunk.braceFaults, List.append_nil]⟩
    · exact ⟨rfl, rfl⟩
  · exact ⟨rfl, rfl⟩

/-- What is found when all tokens are taken. -/
theorem braceFaults_foldl (d : Draft) (ts : List Token) :
    braces (ts.foldl step d).frames = ts.foldl Token.afterBrace (braces d.frames) ∧
      braceFaults (ts.foldl step d).frames (ts.foldl step d).chunks =
        braceFaults d.frames d.chunks ++
          (Token.withOuter (braces d.frames) ts).filterMap faultAt? := by
  induction ts generalizing d with
  | nil => exact ⟨rfl, (List.append_nil _).symm⟩
  | cons t rest ih =>
    obtain ⟨hbraces, hfaults⟩ := braceFaults_step d t
    obtain ⟨hfinal, hrest⟩ := ih (d.step t)
    refine ⟨by rw [List.foldl_cons, List.foldl_cons, hfinal, hbraces], ?_⟩
    rw [List.foldl_cons, hrest, hfaults, hbraces, Token.withOuter, List.filterMap_cons,
      List.append_assoc]
    cases faultAt? (t, braces d.frames) <;> rfl

/-- What is found when the open blocks are ended, innermost first. -/
theorem braceFaults_closeAll (frames : List Frame) (chunks : List Chunk) :
    Chunk.braceFaultsAll 0 (closeAll frames chunks) =
      braceFaults frames chunks ++ (Token.leftOpen (braces frames)).filterMap faultLeft? := by
  induction frames generalizing chunks with
  | nil => exact (List.append_nil _).symm
  | cons f rest ih =>
    have hfault : (faultLeft? (f.brace, braces rest)).toList =
        if rest.length ≤ maxNesting then closingFaults f.brace false else [] := by
      rw [faultLeft?, braces, List.length_map]
      split <;> rfl
    have hleft : Token.leftOpen (braces (f :: rest)) =
        (f.brace, braces rest) :: Token.leftOpen (braces rest) := rfl
    rw [closeAll, ih, braceFaults_end, ← hfault, hleft, List.filterMap_cons, List.append_assoc]
    cases faultLeft? (f.brace, braces rest) <;> rfl

end Draft

/-- **The faults of braces** are those that the stack shows, in the order in which it shows them. -/
theorem filter_faults (template : String) :
    (faults template).filter Fault.isBrace =
      (Token.withOuter [] (Token.scan template)).filterMap faultAt? ++
        (Token.leftOpen ((Token.scan template).foldl Token.afterBrace [])).filterMap
          faultLeft? := by
  obtain ⟨hbraces, hfound⟩ := Draft.braceFaults_foldl Draft.empty (Token.scan template)
  obtain ⟨hframes, hflush⟩ :=
    Draft.braceFaults_flush ((Token.scan template).foldl Draft.step Draft.empty)
  rw [faults, read, Chunk.filter_readAll (Nat.zero_le _), outline, Draft.finish,
    Draft.braceFaults_closeAll, hflush, hfound, hframes, hbraces]
  rfl

/-! ## Braces without faults -/

namespace Token

variable {outer ts : List Token}

/-- Whether no fault of a brace is found behind open braces. -/
def Quiet (outer ts : List Token) : Prop :=
  (∀ p ∈ withOuter outer ts, faultAt? p = none) ∧ ts.foldl afterBrace outer = []

theorem quiet_cons (outer : List Token) (t : Token) (ts : List Token) :
    Quiet outer (t :: ts) ↔ faultAt? (t, outer) = none ∧ Quiet (afterBrace outer t) ts := by
  rw [Quiet, Quiet, withOuter, List.forall_mem_cons, List.foldl_cons, and_assoc]

theorem quiet_open {o : Token} (hkind : o.kind = .braceOpen) :
    Quiet outer (o :: ts) ↔ outer.length ≠ maxNesting ∧ Quiet (o :: outer) ts := by
  rw [quiet_cons, faultAt?_open hkind, afterBrace_open hkind]
  simp

theorem quiet_close {c : Token} (hkind : c.kind = .braceClose) :
    Quiet outer (c :: ts) ↔ outer ≠ [] ∧ Quiet outer.tail ts := by
  rw [quiet_cons, faultAt?_close hkind, afterBrace_close hkind]
  simp

theorem quiet_other {t : Token} (hopen : t.kind ≠ .braceOpen) (hclose : t.kind ≠ .braceClose) :
    Quiet outer (t :: ts) ↔ Quiet outer ts := by
  rw [quiet_cons, faultAt?_other hopen hclose, afterBrace_other hopen hclose]
  exact and_iff_right rfl

/-- Behind an open brace, the tokens up to the one that closes it match. -/
theorem exists_closing (ts : List Token) {o : Token} {outer : List Token}
    (hdepth : outer.length < maxNesting) (h : Quiet (o :: outer) ts) :
    ∃ body c rest, ts = body ++ c :: rest ∧ c.kind = .braceClose ∧
      Nested (maxNesting - (outer.length + 1)) body ∧ Quiet outer rest := by
  match ts with
  | [] => cases h.2
  | t :: ts =>
    by_cases hclose : t.kind = .braceClose
    · exact ⟨[], t, ts, rfl, hclose, .nil, ((quiet_close hclose).1 h).2⟩
    by_cases hopen : t.kind = .braceOpen
    · -- The block that opens here is closed first.
      obtain ⟨hlength, hinner⟩ := (quiet_open hopen).1 h
      rw [List.length_cons] at hlength
      obtain ⟨inner, c, rest, htext, hc, hnested, hrest⟩ :=
        exists_closing ts (by rw [List.length_cons]; omega) hinner
      have hshorter : rest.length < ts.length := by
        rw [htext, List.length_append, List.length_cons]
        omega
      obtain ⟨body, c', rest', htext', hc', hnested', hrest'⟩ := exists_closing rest hdepth hrest
      refine ⟨t :: (inner ++ c :: body), c', rest', by simp [htext, htext'], hc', ?_, hrest'⟩
      obtain ⟨n, hn⟩ : ∃ n, maxNesting - (outer.length + 1) = n + 1 :=
        ⟨maxNesting - (outer.length + 1) - 1, by omega⟩
      rw [List.length_cons, Nat.sub_add_eq, hn] at hnested
      rw [hn] at hnested' ⊢
      exact .block hopen hnested hc hnested'
    · obtain ⟨body, c, rest, rfl, hc, hnested, hrest⟩ :=
        exists_closing ts hdepth ((quiet_other hopen hclose).1 h)
      exact ⟨t :: body, c, rest, rfl, hc, .cons hopen hclose hnested, hrest⟩
termination_by ts.length
decreasing_by all_goals rw [List.length_cons]; omega

theorem nested_of_quiet (ts : List Token) (h : Quiet [] ts) : Nested maxNesting ts := by
  match ts with
  | [] => exact .nil
  | t :: ts =>
    by_cases hclose : t.kind = .braceClose
    · exact absurd rfl ((quiet_close hclose).1 h).1
    by_cases hopen : t.kind = .braceOpen
    · obtain ⟨-, hinner⟩ := (quiet_open hopen).1 h
      obtain ⟨body, c, rest, htext, hc, hnested, hrest⟩ := exists_closing ts (by decide) hinner
      have hshorter : rest.length < ts.length := by
        rw [htext, List.length_append, List.length_cons]
        omega
      rw [htext]
      exact .block hopen hnested hc (nested_of_quiet rest hrest)
    · exact .cons hopen hclose (nested_of_quiet ts ((quiet_other hopen hclose).1 h))
termination_by ts.length
decreasing_by all_goals rw [List.length_cons]; omega

/-- Braces that match leave the stack as it was. -/
theorem Nested.quiet_append {n : Nat} (h : Nested n ts) :
    ∀ {outer rest : List Token}, outer.length + n ≤ maxNesting →
      (Quiet outer (ts ++ rest) ↔ Quiet outer rest) := by
  induction h with
  | nil => exact fun _ => Iff.rfl
  | cons hopen hclose hrest ih =>
    intro outer rest hlength
    rw [List.cons_append, quiet_other hopen hclose, ih hlength]
  | @block n o c body ts hopen hbody hclose hrest ihbody ihrest =>
    intro outer rest hlength
    have hinner : (o :: outer).length + n ≤ maxNesting := by
      rw [List.length_cons]
      omega
    rw [List.cons_append, List.append_assoc, List.cons_append, quiet_open hopen, ihbody hinner,
      quiet_close hclose, List.tail_cons, ihrest hlength]
    exact ⟨fun hquiet => hquiet.2.2, fun hquiet => ⟨by omega, List.cons_ne_nil _ _, hquiet⟩⟩

theorem quiet_iff_nested (ts : List Token) : Quiet [] ts ↔ Nested maxNesting ts := by
  refine ⟨nested_of_quiet ts, fun h => ?_⟩
  have hnil : Quiet [] [] := ⟨fun _ hp => (by cases hp), rfl⟩
  have hquiet := (h.quiet_append (Nat.le_of_eq (Nat.zero_add _))).2 hnil
  rwa [List.append_nil] at hquiet

end Token

open Token

theorem filterMap_eq_map_filter {α β : Type} {f : α → Option β} {p : α → Bool} {g : α → β}
    (h : ∀ a, f a = if p a = true then some (g a) else none) (l : List α) :
    l.filterMap f = (l.filter p).map g := by
  induction l with
  | nil => rfl
  | cons a rest ih =>
    rw [List.filterMap_cons, List.filter_cons, h a, ih]
    cases p a <;> rfl

/-- A fault of one kind is found at the tokens that show it, or at the braces that are left open. -/
theorem filterMap_faults {at? : Fault → Option Nat} (hbrace : ∀ f, f.isBrace = false → at? f = none)
    (template : String) :
    (faults template).filterMap at? =
      (withOuter [] (scan template)).filterMap (fun p => (faultAt? p).bind at?) ++
        (leftOpen ((scan template).foldl afterBrace [])).filterMap
          (fun p => (faultLeft? p).bind at?) := by
  have hfilter : (faults template).filterMap at? =
      ((faults template).filter Fault.isBrace).filterMap at? := by
    rw [List.filterMap_filter]
    congr 1
    funext f
    split
    · rfl
    · next hf => exact hbrace f (Bool.eq_false_iff.2 hf)
  rw [hfilter, filter_faults, List.filterMap_append, List.filterMap_filterMap,
    List.filterMap_filterMap]

theorem filterMap_strayAt? (template : String) :
    (faults template).filterMap Fault.strayAt? =
      (strayBraces (scan template)).map Token.start := by
  have hbrace : ∀ f : Fault, f.isBrace = false → f.strayAt? = none := by
    rintro (_ | _ | _ | _ | _ | _ | _) h <;> first | rfl | cases h
  have hat : ∀ p : Token × List Token, (faultAt? p).bind Fault.strayAt? =
      if decide (p.1.kind = .braceClose ∧ p.2 = []) = true then some p.1.start else none := by
    rintro ⟨t, outer⟩
    by_cases hclose : t.kind = .braceClose
    · rw [faultAt?_close hclose]
      by_cases houter : outer = [] <;> simp [hclose, houter, Fault.strayAt?]
    by_cases hopen : t.kind = .braceOpen
    · rw [faultAt?_open hopen]
      by_cases hlength : outer.length = maxNesting <;> simp [hopen, hlength, Fault.strayAt?]
    · simp [faultAt?_other hopen hclose, hclose]
  have hleft : ∀ p : Token × List Token, (faultLeft? p).bind Fault.strayAt? = none := by
    rintro ⟨t, outer⟩
    rw [faultLeft?]
    split <;> rfl
  rw [filterMap_faults hbrace, filterMap_eq_map_filter hat, strayBraces, List.map_map]
  simp [hleft, Function.comp_def]

theorem filterMap_tooDeepAt? (template : String) :
    (faults template).filterMap Fault.tooDeepAt? =
      (deepBraces (scan template)).map Token.start := by
  have hbrace : ∀ f : Fault, f.isBrace = false → f.tooDeepAt? = none := by
    rintro (_ | _ | _ | _ | _ | _ | _) h <;> first | rfl | cases h
  have hat : ∀ p : Token × List Token, (faultAt? p).bind Fault.tooDeepAt? =
      if decide (p.1.kind = .braceOpen ∧ p.2.length = maxNesting) = true then some p.1.start
      else none := by
    rintro ⟨t, outer⟩
    by_cases hclose : t.kind = .braceClose
    · rw [faultAt?_close hclose]
      by_cases houter : outer = [] <;> simp [hclose, houter, Fault.tooDeepAt?]
    by_cases hopen : t.kind = .braceOpen
    · rw [faultAt?_open hopen]
      by_cases hlength : outer.length = maxNesting <;> simp [hopen, hlength, Fault.tooDeepAt?]
    · simp [faultAt?_other hopen hclose, hopen]
  have hleft : ∀ p : Token × List Token, (faultLeft? p).bind Fault.tooDeepAt? = none := by
    rintro ⟨t, outer⟩
    rw [faultLeft?]
    split <;> rfl
  rw [filterMap_faults hbrace, filterMap_eq_map_filter hat, deepBraces, List.map_map]
  simp [hleft, Function.comp_def]

theorem filterMap_unclosedAt? (template : String) :
    (faults template).filterMap Fault.unclosedAt? =
      (unclosedBraces (scan template)).map Token.start := by
  have hbrace : ∀ f : Fault, f.isBrace = false → f.unclosedAt? = none := by
    rintro (_ | _ | _ | _ | _ | _ | _) h <;> first | rfl | cases h
  have hat : ∀ p : Token × List Token, (faultAt? p).bind Fault.unclosedAt? = none := by
    rintro ⟨t, outer⟩
    rw [faultAt?]
    split <;> first | rfl | (split <;> rfl)
  have hleft : ∀ p : Token × List Token, (faultLeft? p).bind Fault.unclosedAt? =
      if decide (p.2.length ≤ maxNesting) = true then some p.1.start else none := by
    rintro ⟨t, outer⟩
    rw [faultLeft?]
    simp only [decide_eq_true_eq]
    split <;> rfl
  rw [filterMap_faults hbrace, filterMap_eq_map_filter hleft, unclosedBraces, List.map_map]
  simp [hat, Function.comp_def]

/-- The outermost brace that is left open is reported, so none is left open when none is. -/
theorem filterMap_faultLeft_eq_nil (stack : List Token) :
    (leftOpen stack).filterMap faultLeft? = [] ↔ stack = [] := by
  induction stack with
  | nil => exact Iff.intro (fun _ => rfl) fun _ => rfl
  | cons t outer ih =>
    refine ⟨fun h => ?_, fun h => by cases h⟩
    rw [leftOpen, List.filterMap_cons] at h
    cases hfault : faultLeft? (t, outer) with
    | some f => rw [hfault] at h; cases h
    | none =>
      rw [hfault] at h
      rw [ih.1 h, faultLeft?] at hfault
      cases hfault

theorem no_braceFault_iff (template : String) :
    (∀ fault ∈ faults template, fault.isBrace = false) ↔ Nested maxNesting (scan template) := by
  have hquiet : (faults template).filter Fault.isBrace = [] ↔ Quiet [] (scan template) := by
    rw [filter_faults, List.append_eq_nil_iff, filterMap_faultLeft_eq_nil,
      List.filterMap_eq_nil_iff, Quiet]
  rw [← quiet_iff_nested, ← hquiet, List.filter_eq_nil_iff]
  simp only [Bool.not_eq_true]

/-- **Braces are told exactly.** The stray braces, the blocks nested too deeply and the blocks left
    open are reported as a stack of braces shows them. No brace is reported exactly if the braces
    match and blocks are nested no deeper than they are read. -/
theorem brace_faults_exact (template : String) :
    (faults template).filterMap Fault.strayAt? =
        (strayBraces (scan template)).map Token.start ∧
      (faults template).filterMap Fault.tooDeepAt? =
        (deepBraces (scan template)).map Token.start ∧
      (faults template).filterMap Fault.unclosedAt? =
        (unclosedBraces (scan template)).map Token.start ∧
      ((∀ fault ∈ faults template, fault.isBrace = false) ↔
        Nested maxNesting (scan template)) :=
  ⟨filterMap_strayAt? template, filterMap_tooDeepAt? template, filterMap_unclosedAt? template,
    no_braceFault_iff template⟩

end Theming.Sheet
