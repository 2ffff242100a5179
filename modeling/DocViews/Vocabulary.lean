import DocViews.Json.TokenText

/-!
Types whose values have names on the wire. A name is read back by looking it up
among the names of all values, alone or inside a JSON text.
-/

namespace DocViews

/-- A name that no value of the type has. -/
structure UnknownToken where
  kind : String
  token : String
  deriving DecidableEq, Repr

def UnknownToken.message (e : UnknownToken) : String :=
  "Unknown " ++ e.kind ++ " token: " ++ Text.quoted e.token

/-- A type whose values have names. Messages call the type by its kind. -/
class Vocabulary (α : Type) where
  kind : String
  /-- All values, in the order in which messages list their names. -/
  all : List α
  token : α → String

namespace Vocabulary

/-- Every name with its value. -/
def choices (α : Type) [Vocabulary α] : List (String × α) :=
  (all : List α).map fun a => (token a, a)

variable {α : Type} [Vocabulary α]

def parse (name : String) : Except UnknownToken α :=
  match (choices α).find? (·.1 == name) with
  | some choice => .ok choice.2
  | none => .error ⟨kind α, name⟩

/-- The value whose name a JSON text holds. -/
def ofJsonText (text : Bytes) : Except Json.Error α :=
  Json.readAll (Json.token (choices α)) text

def toJson (a : α) : Json.Value := .string (token a)

end Vocabulary

end DocViews
