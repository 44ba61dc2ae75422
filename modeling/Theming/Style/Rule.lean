import Theming.Json.Reader
import Theming.Sheet.Node
import Theming.Style.Condition

set_option autoImplicit false

/-! # Rules under conditions

A rule gives a selector some properties wherever its conditions hold, possibly inside a media
query. -/

namespace Theming.Style

open Sheet (Node)

/-- A block of style that applies under conditions. -/
structure Rule where
  selector : String
  properties : Table String
  conditions : List Condition
  /-- What stands behind the at-word of the media query, if there is one. -/
  mediaQuery : Option String
deriving Repr, DecidableEq, Inhabited

namespace Rule

/-- Whether a rule applies in a context. -/
def applies (context : TokenSet) (r : Rule) : Bool := Condition.allHold context r.conditions

/-- The rule with the blanks around its selector dropped. -/
def trimmed (r : Rule) : Rule := { r with selector := Text.trimmed r.selector }

/-- Whether a rule has a selector, and a name for each of its properties. -/
def isNamed (r : Rule) : Bool :=
  !Text.allBlank r.selector && (Table.names r.properties).all (fun name => !Text.allBlank name)

/-! ## As trees -/

/-- The rule of a tree that says the same. -/
def node (r : Rule) : Node :=
  .rule (Node.selector r.selector ::
    r.properties.map (fun (name, value) => Node.declaration name value))

/-- The at-word of media queries. -/
def mediaWord : String := "media"

/-- Drops a text in front as often as it is there. -/
def dropAll (start : List Char) : Nat → List Char → List Char
  | 0, s => s
  | fuel + 1, s =>
    match Text.dropPrefix? start s with
    | some rest => dropAll start fuel rest
    | none => s

/-- A media query without the at-words that it may start with. -/
def queryText (query : String) : String :=
  let chars := Text.trim query.toList
  String.ofList (Text.trim (dropAll ('@' :: mediaWord.toList) chars.length chars))

/-- The nodes of a rule; none for one with a media query if those are turned off. -/
def nodes (mediaQueries : Bool) (r : Rule) : List Node :=
  match r.mediaQuery with
  | none => [r.node]
  | some query =>
    if mediaQueries then [.condition mediaWord (queryText query) [r.node]] else []

/-! ## In JSON -/

/-- Reads a table of texts. -/
def propertiesOfJson? : Json → Option (Table String)
  | .object fields =>
    (fields.mapM (fun (field : String × Json) =>
      (Json.asString? field.2).map (fun text => (field.1, text)))).map Table.ofPairs
  | _ => none

/-- Reads a text that may be null. -/
def queryOfJson? : Json → Option (Option String)
  | .null => some none
  | .string query => some (some query)
  | _ => none

/-- Reads a rule. -/
def ofJson? (json : Json) : Option Rule := do
  match ← Json.record? [["selector"], ["properties"], ["conditions"], ["media_query"]] json with
  | [some selector, some properties, conditions, mediaQuery] =>
    return ⟨← selector.asString?, ← propertiesOfJson? properties,
      ← Json.orElse [] Condition.listOfJson? conditions,
      ← Json.orElse none queryOfJson? mediaQuery⟩
  | _ => none

/-- How many containers stand around the value of a condition in a rule. -/
def conditionDepth : Nat := 3

/-- Whether the values of the conditions are not nested too deeply to be read from text. -/
def isShallow (json : Json) : Bool :=
  match Json.record? [["selector"], ["properties"], ["conditions"], ["media_query"]] json with
  | some [_, _, some (.array conditions), _] =>
    conditions.all (fun c =>
      match Json.record? [["type"], ["property", "key"], ["value"]] c with
      | some [_, _, some value] => value.depth + conditionDepth ≤ Json.maxDepth
      | _ => true)
  | _ => true

/-- Reads a rule from text. -/
def read? (text : String) : Option Rule := do
  let json ← Json.read? text
  if isShallow json then ofJson? json else none

/-- A rule as JSON text. -/
def json (r : Rule) : String :=
  let properties := r.properties.map (fun (name, value) =>
    Json.writeString name ++ ":" ++ Json.writeString value)
  let query := match r.mediaQuery with
    | none => []
    | some query => ["\"media_query\":" ++ Json.writeString query]
  Json.between "\x7b" "\x7d" ([
    "\"selector\":" ++ Json.writeString r.selector,
    "\"properties\":" ++ Json.between "\x7b" "\x7d" properties,
    "\"conditions\":" ++ Json.between "[" "]" (r.conditions.map Condition.json)] ++ query)

end Rule

end Theming.Style
