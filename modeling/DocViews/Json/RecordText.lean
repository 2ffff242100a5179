import DocViews.Json.Skip

/-!
Records in a JSON text: an object whose members are fields by name, or an array with
the fields in order. Every field has a default, members that are no field are passed
over, and no field may occur twice.
-/

namespace DocViews.Json

/-- Refuses what stands here because something else was wanted. A scalar is read
first, and may turn out to be malformed; arrays and objects are not entered. -/
def wrongTypeAt {α : Type} (wanted : String) : Bytes → Except Failure α
  | 0x5b :: rest => failHere (.wrongType .sequence wanted) (0x5b :: rest)
  | 0x7b :: rest => failHere (.wrongType .map wanted) (0x7b :: rest)
  | input =>
      match scalar input with
      | .ok (value, rest) => failHere (.wrongType (.ofValue value) wanted) rest
      | .error failure => .error failure

/-- A string, or no value where `null` stands. -/
def optionalString (input : Bytes) : Except Failure (Option String × Bytes) :=
  match skipBlank input with
  | [] => failNext .endInValue []
  | 0x6e :: rest => do pure (none, ← restOfWord ull rest)
  | 0x22 :: rest => do
      let (s, rest) ← stringRest rest
      pure (some s, rest)
  | rest => wrongTypeAt "a string" rest

/-- A value, or no value where `null` stands. -/
def optionalValue (levels : Nat) (input : Bytes) : Except Failure (Option Value × Bytes) := do
  let (read, rest) ← value levels input
  match read with
  | .null => pure (none, rest)
  | read => pure (some read, rest)

def natural (input : Bytes) : Except Failure (UInt64 × Bytes) :=
  match skipBlank input with
  | [] => failNext .endInValue []
  | b :: rest =>
      if b = 0x2d ∨ isDigit b then do
        let (n, rest) ← number (b :: rest)
        match n with
        | .integer i =>
            if 0 ≤ i.value then pure (.ofNat i.value.toNat, rest)
            else failHere (.wrongValue (.number n) "u64") rest
        | .float _ => failHere (.wrongType (.number n) "u64") rest
      else wrongTypeAt "u64" (b :: rest)

/-- A field of a record: its name, and how to read it into the record. -/
structure Field (α : Type) where
  name : String
  read : α → Bytes → Except Failure (α × Bytes)

/-- Where a record with a field given twice is refused: the closing brace, if it comes
next, has been read by then. -/
def duplicateField {α : Type} (name : String) (input : Bytes) : Except Failure α :=
  match skipBlank input with
  | 0x7d :: rest => failHere (.duplicateField name) rest
  | rest => failHere (.duplicateField name) rest

/-- A member of a record from behind its key. The state is the record so far and the
names of the fields it has. -/
def recordMember {α : Type} (fields : List (Field α)) (key : String)
    (state : α × List String) (input : Bytes) : Except Failure ((α × List String) × Bytes) :=
  match fields.find? (·.name == key) with
  | none => do
      let rest ← Skip.value (← colon input)
      pure (state, rest)
  | some field =>
      if key ∈ state.2 then duplicateField key input
      else do
        let rest ← colon input
        let (record, rest) ← field.read state.1 rest
        pure ((record, key :: state.2), rest)

/-- The end of an array that has had all its items. -/
def endOfArray (input : Bytes) : Except Failure Bytes :=
  match skipBlank input with
  | [] => failNext .endInList []
  | 0x5d :: rest => .ok rest
  | 0x2c :: rest =>
      match skipBlank rest with
      | 0x5d :: rest => failNext .trailingComma (0x5d :: rest)
      | rest => failNext .trailingCharacters rest
  | rest => failNext .trailingCharacters rest

/-- The fields of a record that is written as an array, the first field's item coming
without a comma. Fields without an item keep their defaults. -/
def recordItems {α : Type} (first : Bool) :
    List (Field α) → α → Bytes → Except Failure (α × Bytes)
  | [], record, input => do pure (record, ← endOfArray input)
  | field :: more, record, input =>
      match skipBlank input with
      | [] => failNext .endInList []
      | 0x5d :: rest => .ok (record, rest)
      | b :: rest =>
          if first then do
            let (record, rest) ← field.read record (b :: rest)
            recordItems false more record rest
          else if b = 0x2c then
            match skipBlank rest with
            | [] => failNext .endInValue []
            | 0x5d :: rest => failNext .trailingComma (0x5d :: rest)
            | rest => do
                let (record, rest) ← field.read record rest
                recordItems false more record rest
          else failNext .expectedCommaOrBracket (b :: rest)

/-- How many levels of nesting are left inside a record. -/
def fieldLevels : Nat := maxLevels - 1

/-- A record with these fields, from its defaults on. -/
def record {α : Type} (wanted : String) (fields : List (Field α)) (defaults : α)
    (input : Bytes) : Except Failure (α × Bytes) :=
  match skipBlank input with
  | [] => failNext .endInValue []
  | 0x5b :: rest => recordItems true fields defaults rest
  | 0x7b :: rest => do
      let ((read, _), rest) ← members (recordMember fields) (defaults, []) rest
      pure (read, rest)
  | rest => wrongTypeAt wanted rest

end DocViews.Json
