import DocViews.Json.Error

/-!
Reading typed data out of a value that has been read already. Refusals carry no
position, for the value has none.
-/

namespace DocViews.Json

def wrongType {α : Type} (wanted : String) (v : Value) : Except Cause α :=
  .error (.wrongType (.ofValue v) wanted)

def Value.asString : Value → Except Cause String
  | .string s => .ok s
  | v => wrongType "a string" v

/-- A string, or nothing where the value is null. -/
def Value.asOptionalString : Value → Except Cause (Option String)
  | .null => .ok none
  | v => v.asString.map some

/-- An integer of 32 bits without sign. -/
def Value.asUInt32 : Value → Except Cause UInt32
  | .number (.integer n) =>
      if 0 ≤ n.value ∧ n.value < 0x100000000 then .ok (.ofNat n.value.toNat)
      else .error (.wrongValue (.number (.integer n)) "u32")
  | v => wrongType "u32" v

/-- Refuses the items of an array that are more than were wanted. -/
def noFurther (items : List Value) (wanted : Nat) : Except Cause Unit :=
  if wanted < items.length then .error (.wrongLength items.length "fewer elements in array")
  else .ok ()

/-- Takes the members of an object one after another into a record so far. -/
def takeMembers {α : Type} (take : α → String → Value → Except Cause α) (start : α)
    (members : List (String × Value)) : Except Cause α :=
  members.foldlM (fun sofar (key, value) => take sofar key value) start

/-- A field that must have been there. -/
def present {α : Type} (name : String) : Option α → Except Cause α
  | some a => .ok a
  | none => .error (.missingField name)

end DocViews.Json
