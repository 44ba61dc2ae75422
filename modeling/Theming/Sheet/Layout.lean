import Theming.Sheet.Item
import Theming.Text.Blank

set_option autoImplicit false

/-! # Writing stylesheets

A tree is written through its flat form, in one of two layouts. The pretty layout has one item per
line, indented by four spaces per block. The minified layout has no blanks between items, and the
last semicolon of a block with selectors is left out. -/

namespace Theming.Sheet

/-- How a stylesheet is written. -/
structure Layout where
  minify : Bool
  removeComments : Bool
deriving Repr, DecidableEq, Inhabited

namespace Layout

/-- One item per line, with comments. -/
def pretty : Layout := ⟨false, false⟩

/-- As short as it gets: minified and without comments. -/
def compact : Layout := ⟨true, true⟩

end Layout

/-! ## Lines -/

/-- The indentation inside a number of blocks. -/
def indent (depth : Nat) : List Char := List.replicate (4 * depth) ' '

/-- Selectors with a separator between them. -/
def selectorList (separator : String) (selectors : List String) : List Char :=
  Text.joinWith separator.toList (selectors.map String.toList)

/-- A statement. -/
def statementText (name prelude : String) : List Char :=
  if prelude = "" then name.toList ++ [';'] else name.toList ++ ' ' :: prelude.toList ++ [';']

/-- The head of a condition block, without its brace. -/
def conditionHead (name prelude : String) : List Char :=
  if prelude = "" then '@' :: name.toList else '@' :: name.toList ++ ' ' :: prelude.toList

/-- Drops one semicolon at the end. -/
def dropSemicolon (inner : List Char) : List Char := (Text.dropSuffix? [';'] inner).getD inner

theorem dropSemicolon_append (x : List Char) {rest : List Char} (h : rest ≠ []) :
    dropSemicolon (x ++ rest) = x ++ dropSemicolon rest := by
  obtain ⟨before, c, rfl⟩ := (List.eq_nil_or_concat rest).resolve_left h
  rw [List.concat_eq_append]
  unfold dropSemicolon
  by_cases hc : c = ';'
  · have hall : Text.dropSuffix? [';'] (x ++ (before ++ [c])) = some (x ++ before) :=
      Text.dropSuffix?_eq_some_iff.2 (by rw [hc, List.append_assoc])
    have hrest : Text.dropSuffix? [';'] (before ++ [c]) = some before :=
      Text.dropSuffix?_eq_some_iff.2 (by rw [hc])
    rw [hall, hrest]
    rfl
  · have hnone : ∀ y : List Char, Text.dropSuffix? [';'] (y ++ [c]) = none := by
      intro y
      rw [Option.eq_none_iff_forall_not_mem]
      intro kept hkept
      have hlast := congrArg List.getLast? (Text.dropSuffix?_eq_some_iff.1 hkept)
      exact hc (by simpa using hlast)
    rw [← List.append_assoc, hnone, hnone]
    exact List.append_assoc x before [c]

theorem dropSemicolon_semicolon (x : List Char) : dropSemicolon (x ++ [';']) = x := by
  rw [dropSemicolon_append x (List.cons_ne_nil _ _)]
  exact List.append_nil x

/-! ## Layouts -/

mutual

/-- The lines of an item in the pretty layout, without the last line feed. -/
def Item.pretty (depth : Nat) : Item → List Char
  | .comment text => indent depth ++ "/* ".toList ++ text.toList ++ " */".toList
  | .statement name prelude => indent depth ++ statementText name prelude
  | .declaration property value =>
    indent depth ++ property.toList ++ ": ".toList ++ value.toList ++ [';']
  | .block selectors body =>
    indent depth ++ selectorList ", " selectors ++ " \x7b\n".toList ++
      Item.prettyAll (depth + 1) body ++
      indent depth ++ ['\x7d']
  | .condition name prelude items =>
    indent depth ++ conditionHead name prelude ++ " \x7b\n".toList ++
      Item.prettyAll (depth + 1) items ++
      indent depth ++ ['\x7d']
termination_by structural item => item

/-- The lines of several items, each with its line feed. -/
def Item.prettyAll (depth : Nat) : List Item → List Char
  | [] => []
  | item :: rest => item.pretty depth ++ '\n' :: Item.prettyAll depth rest
termination_by structural items => items

end

mutual

/-- An item in the minified layout. -/
def Item.minified : Item → List Char
  | .comment text => "/*".toList ++ text.toList ++ "*/".toList
  | .statement name prelude => statementText name prelude
  | .declaration property value => property.toList ++ ':' :: value.toList ++ [';']
  | .block selectors body =>
    selectorList "," selectors ++ '\x7b' :: dropSemicolon (Item.minifiedAll body) ++ ['\x7d']
  | .condition name prelude items =>
    conditionHead name prelude ++ '\x7b' :: Item.minifiedAll items ++ ['\x7d']
termination_by structural item => item

/-- Several items in the minified layout. -/
def Item.minifiedAll : List Item → List Char
  | [] => []
  | item :: rest => item.minified ++ Item.minifiedAll rest
termination_by structural items => items

end

theorem Item.minified_ne_nil (item : Item) : item.minified ≠ [] := by
  cases item with
  | statement name prelude =>
    rw [Item.minified, statementText]
    split <;> simp
  | comment | declaration | block | condition => simp [Item.minified]

theorem Item.prettyAll_append (depth : Nat) (a b : List Item) :
    prettyAll depth (a ++ b) = prettyAll depth a ++ prettyAll depth b := by
  induction a with
  | nil => rfl
  | cons item rest ih => simp [prettyAll, ih]

theorem Item.minifiedAll_append (a b : List Item) :
    minifiedAll (a ++ b) = minifiedAll a ++ minifiedAll b := by
  induction a with
  | nil => rfl
  | cons item rest ih => simp [minifiedAll, ih]

/-- Writes a tree. -/
def serialize (layout : Layout) (tree : Node) : String :=
  let items := flatten layout.removeComments tree
  String.ofList (if layout.minify then Item.minifiedAll items else Item.prettyAll 0 items)

/-- What is written for nodes one after the other is what is written for each of them. -/
theorem serialize_root_append (layout : Layout) (a b : List Node) :
    serialize layout (.root (a ++ b)) =
      serialize layout (.root a) ++ serialize layout (.root b) := by
  unfold serialize flatten Node.root
  dsimp only [Node.children_mk]
  rw [itemsOf_append, Item.prettyAll_append, Item.minifiedAll_append]
  split <;> rw [String.ofList_append]

theorem serialize_root_nil (layout : Layout) : serialize layout (.root []) = "" := by
  unfold serialize
  split <;> rfl

end Theming.Sheet
