import DocViews.Json.Decode
import DocViews.Json.RecordText

/-!
One row of a result, and the ways to get it: out of a value that has been decoded, or
straight from a text.
-/

namespace DocViews

/-- The types that rows can be decoded to. -/
class RowType (ρ : Type) where
  ofValue : Json.Value → Except Json.Cause ρ
  toValue : ρ → Json.Value

/-- A row as it is. -/
instance : RowType Json.Value where
  ofValue := .ok
  toValue v := v

/-- A structured row. Rows of a reduced view have no document. -/
structure Row where
  id : Option String
  key : Json.Value
  value : Json.Value

namespace Row

/-- The row of which nothing is given. -/
def blank : Row := ⟨none, .null, .null⟩

def toValue (row : Row) : Json.Value :=
  let id := match row.id with
    | some id => [("id", Json.Value.string id)]
    | none => []
  .object (id ++ [("key", row.key), ("value", row.value)])

/-- Takes up a member of an object; one that is no field is ignored. -/
def take (row : Row) (key : String) (value : Json.Value) : Except Json.Cause Row :=
  match key with
  | "id" => do pure { row with id := ← value.asOptionalString }
  | "key" => .ok { row with key := value }
  | "value" => .ok { row with value := value }
  | _ => .ok row

/-- A row from an object, or from an array with the fields in order. -/
def ofValue : Json.Value → Except Json.Cause Row
  | .object members => Json.takeMembers take blank members
  | .array items => do
      let id ← (items.getD 0 .null).asOptionalString
      Json.noFurther items 3
      pure ⟨id, items.getD 1 .null, items.getD 2 .null⟩
  | v => Json.wrongType "struct ViewRow" v

instance : RowType Row := ⟨ofValue, toValue⟩

/-- The fields of a row in a text. -/
def fields : List (Json.Field Row) := [
  ⟨"id", fun row input => do
    let (id, rest) ← Json.optionalString input
    pure ({ row with id }, rest)⟩,
  ⟨"key", fun row input => do
    let (key, rest) ← Json.value Json.fieldLevels input
    pure ({ row with key }, rest)⟩,
  ⟨"value", fun row input => do
    let (value, rest) ← Json.value Json.fieldLevels input
    pure ({ row with value }, rest)⟩]

/-- The row that a text holds. -/
def read (text : Bytes) : Except Json.Error Row :=
  Json.readAll (Json.record "struct ViewRow" fields blank) text

instance : BEq Row := ⟨fun a b => a.id == b.id && a.key == b.key && a.value == b.value⟩

end Row

end DocViews
