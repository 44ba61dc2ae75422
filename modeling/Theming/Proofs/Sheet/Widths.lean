import Mathlib.Algebra.Order.BigOperators.Group.List
import Mathlib.Algebra.Order.Ring.Nat
import Theming.Sheet.Layout

set_option autoImplicit false

/-! # How long items are

The bytes that an item takes in a layout, for both layouts at once. A block takes the bytes of its
selectors, of its frame (braces, blanks and line feeds) and of its body (`width_block`). In the
minified layout the body may lack its last semicolon, so a body is not just the sum of its items;
but it is never more than one byte shorter (`widthAll_le_bodyWidth`), which is less than any item
and than the frame of a block. -/

namespace Theming.Sheet

/-! ## Bytes of texts -/

theorem byteLength_indent (depth : Nat) : Text.byteLength (indent depth) = 4 * depth := by
  rw [indent]
  induction 4 * depth with
  | zero => rfl
  | succ n ih =>
    rw [List.replicate_succ, Text.byteLength, ih, Nat.add_comm]
    rfl

/-- At most one byte is dropped at the end of a body. -/
theorem byteLength_dropSemicolon (x : List Char) :
    Text.byteLength (dropSemicolon x) ≤ Text.byteLength x ∧
      Text.byteLength x ≤ Text.byteLength (dropSemicolon x) + 1 := by
  rw [dropSemicolon]
  cases h : Text.dropSuffix? [';'] x with
  | none => exact ⟨Nat.le_refl _, Nat.le_succ _⟩
  | some kept =>
    have hsemicolon : Text.byteLength [';'] = 1 := rfl
    rw [Text.dropSuffix?_eq_some_iff.1 h, Text.byteLength_append, hsemicolon]
    exact ⟨Nat.le_succ _, Nat.le_refl _⟩

theorem byteLength_dropSemicolon_append_le (x y : List Char) :
    Text.byteLength (dropSemicolon (x ++ y)) ≤
      Text.byteLength x + Text.byteLength (dropSemicolon y) := by
  by_cases hy : y = []
  · rw [hy, List.append_nil]
    exact Nat.le_trans (byteLength_dropSemicolon x).1 (Nat.le_add_right _ _)
  · rw [dropSemicolon_append x hy, Text.byteLength_append]

/-! ## Lists of selectors -/

/-- What stands between two selectors. -/
def separator (minify : Bool) : String := if minify then "," else ", "

/-- The bytes of what stands between two selectors. -/
def separatorWidth (minify : Bool) : Nat := if minify then 1 else 2

/-- The bytes of a list of selectors. -/
def listWidth (minify : Bool) (selectors : List String) : Nat :=
  Text.byteLength (selectorList (separator minify) selectors)

/-- The bytes of a list of selectors with a separator behind each of them. -/
def gappedWidth (minify : Bool) (selectors : List String) : Nat :=
  (selectors.map (fun s => Text.byteLength s.toList + separatorWidth minify)).sum

theorem byteLength_separator (minify : Bool) :
    Text.byteLength (separator minify).toList = separatorWidth minify := by
  cases minify <;> rfl

/-- There is one separator less than there are selectors. -/
theorem listWidth_eq (minify : Bool) (selectors : List String) :
    listWidth minify selectors = gappedWidth minify selectors - separatorWidth minify := by
  have hjoin : ∀ (s : String) (rest : List String),
      listWidth minify (s :: rest) + separatorWidth minify = gappedWidth minify (s :: rest) := by
    intro s rest
    induction rest generalizing s with
    | nil => rfl
    | cons next rest ih =>
      have hcons : listWidth minify (s :: next :: rest) =
          Text.byteLength s.toList + separatorWidth minify + listWidth minify (next :: rest) := by
        unfold listWidth selectorList
        rw [List.map_cons, List.map_cons, Text.joinWith, Text.byteLength_append,
          Text.byteLength_append, byteLength_separator]
        exact List.cons_ne_nil _ _
      have hgapped : gappedWidth minify (s :: next :: rest) =
          Text.byteLength s.toList + separatorWidth minify + gappedWidth minify (next :: rest) :=
        List.sum_cons
      rw [hcons, hgapped, ← ih next, Nat.add_assoc]
  cases selectors with
  | nil => exact (Nat.zero_sub _).symm
  | cons s rest => exact Nat.eq_sub_of_add_eq (hjoin s rest)

theorem listWidth_le_of_sublist (minify : Bool) {a b : List String} (h : a.Sublist b) :
    listWidth minify a ≤ listWidth minify b := by
  have hsum : gappedWidth minify a ≤ gappedWidth minify b :=
    (h.map _).sum_le_sum (fun _ _ => Nat.zero_le _)
  rw [listWidth_eq, listWidth_eq]
  exact Nat.sub_le_sub_right hsum _

/-- Two lists of selectors in one need one separator more. -/
theorem listWidth_le_of_perm (minify : Bool) {l a b : List String} (h : l.Perm (a ++ b)) :
    listWidth minify l ≤ listWidth minify a + listWidth minify b + separatorWidth minify := by
  have hsum : gappedWidth minify l = gappedWidth minify a + gappedWidth minify b := by
    unfold gappedWidth
    rw [(h.map _).sum_nat, List.map_append, List.sum_append_nat]
  rw [listWidth_eq, listWidth_eq, listWidth_eq, hsum]
  omega

/-! ## Items -/

namespace Item

/-- The bytes of an item, with the line feed behind it if there is one. -/
def width (minify : Bool) (depth : Nat) (item : Item) : Nat :=
  Text.byteLength (if minify then item.minified else item.pretty depth ++ ['\n'])

/-- The bytes of several items. -/
def widthAll (minify : Bool) (depth : Nat) (items : List Item) : Nat :=
  (items.map (width minify depth)).sum

/-- The bytes inside the braces of a block with selectors. -/
def bodyWidth (minify : Bool) (depth : Nat) (body : List Item) : Nat :=
  Text.byteLength (if minify then dropSemicolon (minifiedAll body) else prettyAll (depth + 1) body)

/-- The bytes of the braces of a block and of what stands around them. -/
def frameWidth (minify : Bool) (depth : Nat) : Nat := if minify then 2 else 8 * depth + 5

variable {minify : Bool} {depth : Nat}

theorem widthAll_cons (minify : Bool) (depth : Nat) (item : Item) (rest : List Item) :
    widthAll minify depth (item :: rest) = item.width minify depth + widthAll minify depth rest :=
  List.sum_cons

theorem widthAll_append (minify : Bool) (depth : Nat) (a b : List Item) :
    widthAll minify depth (a ++ b) = widthAll minify depth a + widthAll minify depth b := by
  rw [widthAll, List.map_append, List.sum_append_nat, widthAll, widthAll]

/-- The bytes of several items are those of their text. -/
theorem widthAll_eq (minify : Bool) (depth : Nat) (items : List Item) :
    widthAll minify depth items =
      Text.byteLength (if minify then minifiedAll items else prettyAll depth items) := by
  induction items with
  | nil => cases minify <;> rfl
  | cons item rest ih =>
    rw [widthAll_cons, ih, width, ← Text.byteLength_append]
    cases minify with
    | true => rfl
    | false =>
      show Text.byteLength (item.pretty depth ++ ['\n'] ++ prettyAll depth rest) = _
      rw [List.append_assoc]
      rfl

theorem width_block (minify : Bool) (depth : Nat) (selectors : List String) (body : List Item) :
    (block selectors body).width minify depth =
      listWidth minify selectors + frameWidth minify depth + bodyWidth minify depth body := by
  cases minify with
  | true =>
    simp only [width, minified, bodyWidth, listWidth, separator, frameWidth, if_true,
      Text.byteLength_append, Text.byteLength]
    have hbraces : '\x7b'.utf8Size = 1 ∧ '\x7d'.utf8Size = 1 := by decide
    omega
  | false =>
    have hbrace : Text.byteLength " \x7b\n".toList = 3 := rfl
    have hends : Text.byteLength ['\x7d'] = 1 ∧ Text.byteLength ['\n'] = 1 := ⟨rfl, rfl⟩
    simp only [width, pretty, bodyWidth, listWidth, separator, frameWidth, Bool.false_eq_true,
      if_false, Text.byteLength_append, byteLength_indent, hbrace, hends]
    omega

theorem width_condition (minify : Bool) (depth : Nat) (name prelude : String)
    (items : List Item) :
    (condition name prelude items).width minify depth =
      Text.byteLength (conditionHead name prelude) + frameWidth minify depth +
        widthAll minify (depth + 1) items := by
  rw [widthAll_eq]
  cases minify with
  | true =>
    simp only [width, minified, frameWidth, if_true, Text.byteLength_append, Text.byteLength]
    have hbraces : '\x7b'.utf8Size = 1 ∧ '\x7d'.utf8Size = 1 := by decide
    omega
  | false =>
    have hbrace : Text.byteLength " \x7b\n".toList = 3 := rfl
    have hends : Text.byteLength ['\x7d'] = 1 ∧ Text.byteLength ['\n'] = 1 := ⟨rfl, rfl⟩
    simp only [width, pretty, frameWidth, Bool.false_eq_true, if_false, Text.byteLength_append,
      byteLength_indent, hbrace, hends]
    omega

theorem width_pos (minify : Bool) (depth : Nat) (item : Item) : 0 < item.width minify depth := by
  cases minify with
  | true => exact Text.byteLength_pos item.minified_ne_nil
  | false => exact Text.byteLength_pos (by simp)

/-- Comments may stand deeper for some more blanks. -/
theorem width_le_succ {item : Item} (h : item.isComment = true) (minify : Bool) (depth : Nat) :
    item.width minify depth ≤ item.width minify (depth + 1) := by
  cases item with
  | comment text =>
    cases minify with
    | true => exact Nat.le_refl _
    | false =>
      simp only [width, pretty, Bool.false_eq_true, if_false, Text.byteLength_append,
        byteLength_indent]
      omega
  | statement | declaration | block | condition => cases h

theorem widthAll_le_succ {items : List Item} (h : items.all isComment = true) (minify : Bool)
    (depth : Nat) : widthAll minify depth items ≤ widthAll minify (depth + 1) items :=
  List.sum_le_sum (fun item hitem => width_le_succ (List.all_eq_true.1 h item hitem) minify depth)

theorem widthAll_le_of_sublist (minify : Bool) (depth : Nat) {a b : List Item}
    (h : a.Sublist b) : widthAll minify depth a ≤ widthAll minify depth b :=
  (h.map _).sum_le_sum (fun _ _ => Nat.zero_le _)

theorem widthAll_lt_of_sublist (minify : Bool) (depth : Nat) {a b : List Item}
    (h : a.Sublist b) (hne : a ≠ b) : widthAll minify depth a < widthAll minify depth b := by
  induction h with
  | slnil => exact absurd rfl hne
  | cons item h _ =>
    rw [widthAll_cons]
    exact Nat.lt_of_le_of_lt (widthAll_le_of_sublist minify depth h)
      (Nat.lt_add_of_pos_left (item.width_pos minify depth))
  | cons_cons item _ ih =>
    rw [widthAll_cons, widthAll_cons]
    exact Nat.add_lt_add_left (ih (fun heq => hne (by rw [heq]))) _

/-! ## Bodies -/

theorem bodyWidth_le_widthAll (minify : Bool) (depth : Nat) (body : List Item) :
    bodyWidth minify depth body ≤ widthAll minify (depth + 1) body := by
  rw [widthAll_eq]
  cases minify with
  | true => exact (byteLength_dropSemicolon _).1
  | false => exact Nat.le_refl _

theorem widthAll_le_bodyWidth (minify : Bool) (depth : Nat) (body : List Item) :
    widthAll minify (depth + 1) body ≤ bodyWidth minify depth body + 1 := by
  rw [widthAll_eq]
  cases minify with
  | true => exact (byteLength_dropSemicolon _).2
  | false => exact Nat.le_succ _

/-- A body that is shorter by an item is shorter by the semicolon that it may gain. -/
theorem bodyWidth_le_of_sublist (minify : Bool) (depth : Nat) {a b : List Item}
    (h : a.Sublist b) : bodyWidth minify depth a ≤ bodyWidth minify depth b := by
  by_cases hab : a = b
  · rw [hab]
  · have hless := widthAll_lt_of_sublist minify (depth + 1) h hab
    have ha := bodyWidth_le_widthAll minify depth a
    have hb := widthAll_le_bodyWidth minify depth b
    omega

/-- A body behind another one gives the first one its semicolon. -/
theorem bodyWidth_append_le (minify : Bool) (depth : Nat) (a b : List Item) :
    bodyWidth minify depth (a ++ b) ≤
      bodyWidth minify depth a + bodyWidth minify depth b + 1 := by
  have hall : bodyWidth minify depth (a ++ b) ≤
      widthAll minify (depth + 1) a + bodyWidth minify depth b := by
    rw [widthAll_eq]
    cases minify with
    | true =>
      have happend : minifiedAll (a ++ b) = minifiedAll a ++ minifiedAll b := by
        induction a with
        | nil => rfl
        | cons item rest ih =>
          rw [List.cons_append, minifiedAll, minifiedAll, ih, List.append_assoc]
      show Text.byteLength (dropSemicolon (minifiedAll (a ++ b))) ≤ _
      rw [happend]
      exact byteLength_dropSemicolon_append_le _ _
    | false =>
      have hsum := widthAll_append false (depth + 1) a b
      rw [widthAll_eq, widthAll_eq, widthAll_eq] at hsum
      exact Nat.le_of_eq hsum
  have ha := widthAll_le_bodyWidth minify depth a
  omega

theorem separatorWidth_le_frameWidth (minify : Bool) (depth : Nat) :
    separatorWidth minify ≤ frameWidth minify depth := by
  cases minify with
  | true => exact Nat.le_succ 1
  | false =>
    show 2 ≤ 8 * depth + 5
    omega

theorem frameWidth_pos (minify : Bool) (depth : Nat) : 0 < frameWidth minify depth := by
  cases minify with
  | true => exact Nat.succ_pos 1
  | false => exact Nat.succ_pos _

end Item

end Theming.Sheet
