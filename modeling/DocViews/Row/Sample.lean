import DocViews.Row

/-!
Two row types of a program's own: a row of which only a composite key is wanted, and
a row whose value is a record.
-/

namespace DocViews

/-- A row by its key, a pair of a text and a number. -/
structure KeyOnly where
  key : String × UInt32
  deriving DecidableEq, Repr

namespace KeyOnly

/-- The pair, from an array of two. -/
def pair : Json.Value → Except Json.Cause (String × UInt32)
  | .array items =>
      match items with
      | [] => .error (.wrongLength 0 "a tuple of size 2")
      | [first] => do
          let _ ← first.asString
          .error (.wrongLength 1 "a tuple of size 2")
      | first :: second :: _ => do
          let first ← first.asString
          let second ← second.asUInt32
          Json.noFurther items 2
          pure (first, second)
  | v => Json.wrongType "a tuple of size 2" v

def take (key : Option (String × UInt32)) (name : String) (value : Json.Value) :
    Except Json.Cause (Option (String × UInt32)) :=
  if name = "key" then (pair value).map some else .ok key

def ofValue : Json.Value → Except Json.Cause KeyOnly
  | .object members => do
      let key ← Json.takeMembers take none members
      pure ⟨← Json.present "key" key⟩
  | .array items =>
      match items with
      | [] => .error (.wrongLength 0 "struct KeyOnly with 1 element")
      | key :: _ => do
          let key ← pair key
          Json.noFurther items 1
          pure ⟨key⟩
  | v => Json.wrongType "struct KeyOnly" v

def toValue (row : KeyOnly) : Json.Value :=
  .object [("key", .array [.string row.key.1, .ofNat row.key.2.toNat])]

instance : RowType KeyOnly := ⟨ofValue, toValue⟩

end KeyOnly

/-- The value of a numbered row. -/
structure Numbered where
  n : UInt32
  deriving DecidableEq, Repr

namespace Numbered

def take (n : Option UInt32) (name : String) (value : Json.Value) :
    Except Json.Cause (Option UInt32) :=
  if name = "n" then value.asUInt32.map some else .ok n

def ofValue : Json.Value → Except Json.Cause Numbered
  | .object members => do
      let n ← Json.takeMembers take none members
      pure ⟨← Json.present "n" n⟩
  | .array items =>
      match items with
      | [] => .error (.wrongLength 0 "struct Numbered with 1 element")
      | n :: _ => do
          let n ← n.asUInt32
          Json.noFurther items 1
          pure ⟨n⟩
  | v => Json.wrongType "struct Numbered" v

def toValue (value : Numbered) : Json.Value := .object [("n", .ofNat value.n.toNat)]

end Numbered

/-- A row of a document whose value is a record with a number. -/
structure NumberedRow where
  id : String
  value : Numbered
  deriving DecidableEq, Repr

namespace NumberedRow

def take (row : Option String × Option Numbered) (name : String) (value : Json.Value) :
    Except Json.Cause (Option String × Option Numbered) :=
  match name with
  | "id" => do pure (some (← value.asString), row.2)
  | "value" => do pure (row.1, some (← Numbered.ofValue value))
  | _ => .ok row

def ofValue : Json.Value → Except Json.Cause NumberedRow
  | .object members => do
      let (id, value) ← Json.takeMembers take (none, none) members
      pure ⟨← Json.present "id" id, ← Json.present "value" value⟩
  | .array items =>
      match items with
      | [] => .error (.wrongLength 0 "struct NumberedRow with 2 elements")
      | [id] => do
          let _ ← id.asString
          .error (.wrongLength 1 "struct NumberedRow with 2 elements")
      | id :: value :: _ => do
          let id ← id.asString
          let value ← Numbered.ofValue value
          Json.noFurther items 2
          pure ⟨id, value⟩
  | v => Json.wrongType "struct NumberedRow" v

def toValue (row : NumberedRow) : Json.Value :=
  .object [("id", .string row.id), ("value", row.value.toValue)]

instance : RowType NumberedRow := ⟨ofValue, toValue⟩

end NumberedRow

end DocViews
