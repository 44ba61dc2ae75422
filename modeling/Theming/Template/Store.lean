import Theming.Table
import Theming.Text.Blank
import Theming.Text.Quoted

set_option autoImplicit false

/-! # Template stores

A store keeps the text and the category of templates under their names. -/

namespace Theming.Template

/-- What a store refuses. -/
inductive StoreError where
  | notFound (name : String)
  | invalidName (name : String)
deriving Repr, DecidableEq

/-- What an error says. -/
def StoreError.message : StoreError → String
  | .notFound name => "template not found: " ++ name
  | .invalidName name => "invalid template name: " ++ Text.quoted name

/-- A stored template. -/
structure Stored where
  content : String
  category : String
deriving Repr, DecidableEq, Inhabited

/-- The category of a template that is given none. -/
def defaultCategory : String := "components"

/-- Stored templates by name. -/
abbrev Store := Table Stored

namespace Store

/-- Whether a name is accepted: it is not blank, and no part of it between slashes leads upwards. -/
def isValidName (name : String) : Bool :=
  !Text.allBlank name && !(Text.pieces (· == '/') name.toList).contains ['.', '.']

/-- The text of a template. -/
def read (name : String) (store : Store) : Except StoreError String :=
  match Table.find? name store with
  | some stored => .ok stored.content
  | none => .error (.notFound name)

/-- Stores a template; a blank category stands for the default one. -/
def write (name content category : String) (store : Store) : Except StoreError Store :=
  if isValidName name then
    let category := if Text.allBlank category then defaultCategory else category
    .ok (Table.insert name ⟨content, category⟩ store)
  else .error (.invalidName name)

/-- Removes a template. -/
def remove (name : String) (store : Store) : Except StoreError Store :=
  if Table.has name store then .ok (Table.erase name store) else .error (.notFound name)

/-- The category of a template. -/
def category? (name : String) (store : Store) : Option String :=
  (Table.find? name store).map (·.category)

end Store

end Theming.Template
