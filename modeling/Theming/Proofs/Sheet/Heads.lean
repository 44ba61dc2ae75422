import Theming.Proofs.Sheet.Phrases

set_option autoImplicit false

/-! # Heads of blocks that are read again

Where a flat form puts selectors together, their text may be read as something else: `&` can run two
words into one, and a first selector that starts with an at sign makes the block a condition block.
A list of selectors is legible if its text on its own is scanned as tokens for whose head the same
text is written (`LegibleHead`). Then it is read so wherever it stands (`LegibleHead.scans`). -/

namespace Theming.Sheet

open Node
open Token (Flowing Scans Separated Shielded kinds isGap joinText)

/-! ## Scanning at another place -/

namespace Token

/-- The token further on. -/
def shiftedBy (o : Nat) (t : Token) : Token := ⟨t.kind, t.text, t.start + o, t.stop + o⟩

theorem kinds_shiftedBy (o : Nat) (ts : List Token) : kinds (ts.map (shiftedBy o)) = kinds ts := by
  rw [kinds, List.map_map]
  rfl

/-- A text that is scanned as firm tokens without comments is scanned as the same tokens wherever it
    stands in front of a separator. -/
theorem scanFrom_shiftedBy {p : Nat} {x tail : List Char}
    (h : ∀ t ∈ scanFrom p x, t.IsFirm ∧ t.kind ≠ .comment) (htail : Separated tail) (o : Nat) :
    scanFrom (p + o) (x ++ tail) =
      (scanFrom p x).map (shiftedBy o) ++ scanFrom (p + o + Text.byteLength x) tail := by
  fun_induction scanFrom p x with
  | case1 p => rfl
  | case2 p c more hgap ih =>
    rw [List.cons_append, scanFrom_gap hgap, Nat.add_right_comm, ih h, Text.byteLength]
    congr 2
    omega
  | case3 p c more hgap kind count hnext text stop ih =>
    obtain ⟨⟨hfirm, hkind⟩, hrest⟩ := List.forall_mem_cons.1 h
    have hle := next_le c more
    rw [hnext] at hle
    have hlength : (more.take count).length = count := by rw [List.length_take, Nat.min_eq_left hle]
    have hcut : CutBefore ⟨kind, text, p, stop⟩ (more.drop count) :=
      ⟨c, more.take count, rfl, by simpa using hgap, by rw [List.take_append_drop, hnext, hlength]⟩
    -- What stands behind the token starts as before, unless nothing was left.
    have hfollows : Follows (more.drop count) (more.drop count ++ tail) := by
      cases more.drop count with
      | nil => exact Or.inr htail
      | cons d rest => exact Or.inl rfl
    have hmoved := scanFrom_cut (hcut.follows hfirm hkind hfollows) (p + o)
    have htext : c :: more = text ++ more.drop count := by
      rw [List.cons_append, List.take_append_drop]
    have hstop : p + o + Text.byteLength text = stop + o := Nat.add_right_comm p o _
    rw [htext, List.append_assoc, hmoved, List.map_cons, List.cons_append, Text.byteLength_append,
      ← Nat.add_assoc]
    show _ :: scanFrom (p + o + Text.byteLength text) _ = _
    rw [hstop, ih hrest]
    congr 1
    rw [movedTo, shiftedBy]
    dsimp only
    rw [hstop]

/-- A text that is scanned as firm tokens without comments is scanned so wherever it stands. -/
theorem scans_firm {x : List Char} (h : ∀ t ∈ scanFrom 0 x, t.IsFirm ∧ t.kind ≠ .comment) :
    Scans x (fun ts => ∃ o, ts = (scanFrom 0 x).map (shiftedBy o)) := by
  intro o tail htail
  refine ⟨_, ?_, o, rfl⟩
  have hscan := scanFrom_shiftedBy h htail o
  rwa [Nat.zero_add] at hscan

/-! ## Texts of shifted tokens -/

theorem joinAfter_shiftedBy (o last : Nat) (gap : Bool) (ts : List Token) :
    joinAfter (last + o) gap (ts.map (shiftedBy o)) = joinAfter last gap ts := by
  induction ts generalizing last gap with
  | nil => rfl
  | cons t rest ih =>
    rw [List.map_cons, joinAfter, joinAfter, ih]
    show (if t.kind = .comment then _ else _) = _
    split
    · rfl
    · have hrest := ih t.stop false
      simp only [shiftedBy, Nat.add_lt_add_iff_right] at hrest ⊢
      rw [hrest]

theorem joinText_shiftedBy (o : Nat) (ts : List Token) :
    joinText (ts.map (shiftedBy o)) = joinText ts := by
  induction ts with
  | nil => rfl
  | cons t rest ih =>
    rw [List.map_cons, joinText, joinText, ih]
    show (if t.kind = .comment then _ else t.text ++ joinAfter (t.stop + o) false _) = _
    rw [joinAfter_shiftedBy]

theorem join_shiftedBy (o : Nat) (ts : List Token) : join (ts.map (shiftedBy o)) = join ts :=
  congrArg String.ofList (joinText_shiftedBy o ts)

theorem splitAt_shiftedBy (o : Nat) (kind : Kind) (depth : Nat) (ts : List Token) :
    splitAt kind depth (ts.map (shiftedBy o)) =
      (splitAt kind depth ts).map (List.map (shiftedBy o)) := by
  induction ts generalizing depth with
  | nil => rfl
  | cons t rest ih =>
    have hdepth : depthAfter depth (t.shiftedBy o) = depthAfter depth t := rfl
    rw [List.map_cons, splitAt, splitAt, hdepth]
    show (if t.kind = kind ∧ depth = 0 then _ else _) = _
    split
    · rw [ih, List.map_cons]
      rfl
    · rw [ih]
      cases splitAt kind (depthAfter depth t) rest <;> rfl

end Token

theorem selectorsOf_shiftedBy (o : Nat) (ts : List Token) :
    selectorsOf (ts.map (Token.shiftedBy o)) = selectorsOf ts := by
  have hjoin : Token.join ∘ List.map (Token.shiftedBy o) = Token.join :=
    funext (Token.join_shiftedBy o)
  rw [selectorsOf, Token.splitAt_shiftedBy, List.map_map, hjoin, selectorsOf]

/-! ## Legible heads -/

/-- What is written for the head of a block that is read from these tokens. -/
def headText : List Token → List Char
  | [] => []
  | t :: rest =>
    if t.kind = .atKeyword then conditionHead (String.ofList (t.text.drop 1)) (Token.join rest)
    else selectorList ", " (selectorsOf (t :: rest))

/-- Selectors whose text, on its own, is scanned as the head of a block for which the same text is
    written. -/
structure LegibleHead (selectors : List String) : Prop where
  nonempty : selectorList ", " selectors ≠ []
  words : ∀ t ∈ Token.scanFrom 0 (selectorList ", " selectors), t.IsFirm ∧ t.kind ≠ .comment
  flowing : Flowing 0 (kinds (Token.scanFrom 0 (selectorList ", " selectors)))
  same : headText (Token.scanFrom 0 (selectorList ", " selectors)) = selectorList ", " selectors

instance Token.decidableShielded (kind : Token.Kind) :
    (depth : Nat) → (ks : List Token.Kind) → Decidable (Shielded kind depth ks)
  | _, [] => .isTrue trivial
  | depth, k :: rest =>
    have : Decidable (Shielded kind (k.depthAfter depth) rest) :=
      decidableShielded kind (k.depthAfter depth) rest
    inferInstanceAs (Decidable ((k = kind → depth ≠ 0) ∧ Shielded kind (k.depthAfter depth) rest))

instance (depth : Nat) (ks : List Token.Kind) : Decidable (Flowing depth ks) :=
  decidable_of_iff
    ((∀ k ∈ ks, k ≠ .braceOpen ∧ k ≠ .braceClose) ∧ Shielded .semicolon depth ks)
    ⟨fun ⟨hbraces, hsemicolons⟩ => ⟨hbraces, hsemicolons⟩,
      fun ⟨hbraces, hsemicolons⟩ => ⟨hbraces, hsemicolons⟩⟩

instance : DecidablePred LegibleHead := fun selectors =>
  decidable_of_iff
    (selectorList ", " selectors ≠ [] ∧
      (∀ t ∈ Token.scanFrom 0 (selectorList ", " selectors), t.IsFirm ∧ t.kind ≠ .comment) ∧
      Flowing 0 (kinds (Token.scanFrom 0 (selectorList ", " selectors))) ∧
      headText (Token.scanFrom 0 (selectorList ", " selectors)) = selectorList ", " selectors)
    ⟨fun ⟨hne, hwords, hflowing, hsame⟩ => ⟨hne, hwords, hflowing, hsame⟩,
      fun ⟨hne, hwords, hflowing, hsame⟩ => ⟨hne, hwords, hflowing, hsame⟩⟩

/-- The lines of a block, from its head and the lines inside. -/
def blockLines (k : Nat) (head inner : List Char) : List Char :=
  indent k ++ head ++ " \x7b\n".toList ++ inner ++ indent k ++ ['\x7d']

theorem pretty_block (k : Nat) (selectors : List String) (body : List Item) :
    (Item.block selectors body).pretty k =
      blockLines k (selectorList ", " selectors) (Item.prettyAll (k + 1) body) := rfl

theorem pretty_condition (k : Nat) (name prelude : String) (items : List Item) :
    (Item.condition name prelude items).pretty k =
      blockLines k (conditionHead name prelude) (Item.prettyAll (k + 1) items) := rfl

section Reading

variable {t : Token} {rest : List Token} {o : Nat}

theorem plain_shiftedBy {ts : List Token} (h : ∀ t ∈ ts, t.IsFirm ∧ t.kind ≠ .comment) (o : Nat) :
    ∀ t ∈ ts.map (Token.shiftedBy o), t.kind ≠ .comment := by
  intro t ht
  obtain ⟨u, hu, rfl⟩ := List.mem_map.1 ht
  exact (h u hu).2

/-- At another place, an at-word with a prelude is read as the same head. -/
theorem isHead_at_shiftedBy (hkind : t.kind = .atKeyword)
    (hwords : ∀ u ∈ t :: rest, u.IsFirm ∧ u.kind ≠ .comment)
    (hflowing : Flowing 0 (kinds (t :: rest))) :
    IsHead (.condition (String.ofList (t.text.drop 1)) (Token.join rest))
      ((t :: rest).map (Token.shiftedBy o)) := by
  refine ⟨by rwa [Token.kinds_shiftedBy], plain_shiftedBy hwords o, fun brace body => ?_⟩
  have hshifted : (t.shiftedBy o).kind = .atKeyword := hkind
  rw [List.map_cons, readBlock, if_pos hshifted, Token.join_shiftedBy]
  rfl

/-- At another place, selectors are read as the same head. -/
theorem isHead_selectors_shiftedBy (hkind : t.kind ≠ .atKeyword)
    (hwords : ∀ u ∈ t :: rest, u.IsFirm ∧ u.kind ≠ .comment)
    (hflowing : Flowing 0 (kinds (t :: rest))) (hne : selectorsOf (t :: rest) ≠ []) :
    IsHead (fun body => .rule ((selectorsOf (t :: rest)).map .selector ++ body))
      ((t :: rest).map (Token.shiftedBy o)) := by
  refine ⟨by rwa [Token.kinds_shiftedBy], plain_shiftedBy hwords o, fun brace body => ?_⟩
  have hword : (t.shiftedBy o).kind ≠ .atKeyword := hkind
  have hshifted : selectorsOf (t.shiftedBy o :: rest.map (Token.shiftedBy o)) =
      selectorsOf (t :: rest) := selectorsOf_shiftedBy o (t :: rest)
  rw [List.map_cons, readBlock_selectors hword (by rwa [hshifted]), hshifted]

end Reading

/-- How a block is written whose head is written as a text. -/
def WritesHead (x : List Char) (n : Node) (body : List Node) : Prop :=
  ∃ item, n.items false none = [item] ∧
    ∀ k, item.pretty k = blockLines k x (Item.prettyAll (k + 1) (itemsOf false none body))

theorem writesHead_rule {x : List Char} {selectors : List String} {body : List Node}
    (hx : selectorList ", " selectors = x) (hentries : ∀ n ∈ body, n.isEntry = true) :
    WritesHead x (.rule (selectors.map .selector ++ body)) body :=
  ⟨_, items_rule selectors hentries, fun k => by rw [pretty_block, hx]⟩

theorem writesHead_condition {x : List Char} {name prelude : String}
    (hx : conditionHead name prelude = x) (body : List Node) :
    WritesHead x (.condition name prelude body) body :=
  ⟨_, items_condition name prelude body, fun k => by rw [pretty_condition, hx]⟩

/-- Wherever it stands, a legible head is read as the head of a node for which it is written. -/
theorem LegibleHead.scans {selectors : List String} (h : LegibleHead selectors) :
    ∃ node, Scans (selectorList ", " selectors) (IsHead node) ∧
      ∀ body, (∀ n ∈ body, n.isEntry = true) →
        WritesHead (selectorList ", " selectors) (node body) body := by
  obtain ⟨hne, hwords, hflowing, hsame⟩ := h
  have hscans := Token.scans_firm hwords
  generalize Token.scanFrom 0 (selectorList ", " selectors) = ts at hwords hflowing hsame hscans
  cases ts with
  | nil => exact absurd hsame.symm hne
  | cons t rest =>
    rw [headText] at hsame
    by_cases hkind : t.kind = .atKeyword
    · rw [if_pos hkind] at hsame
      refine ⟨_, hscans.mono ?_, fun body _ => writesHead_condition hsame body⟩
      rintro us ⟨o, rfl⟩
      exact isHead_at_shiftedBy hkind hwords hflowing
    · rw [if_neg hkind] at hsame
      have hselectors : selectorsOf (t :: rest) ≠ [] := by
        intro hempty
        rw [hempty] at hsame
        exact hne hsame.symm
      refine ⟨_, hscans.mono ?_, fun body hentries => writesHead_rule hsame hentries⟩
      rintro us ⟨o, rfl⟩
      exact isHead_selectors_shiftedBy hkind hwords hflowing hselectors

end Theming.Sheet
