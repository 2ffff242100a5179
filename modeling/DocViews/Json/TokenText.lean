import DocViews.Json.RecordText

/-!
A choice between named tokens in a JSON text: a string, or an object whose only
member has the token as key and null as value.
-/

namespace DocViews.Json

/-- The choice with this name, found at the end of the name. -/
def choose {α : Type} (choices : List (String × α)) (name : String) (rest : Bytes) :
    Except Failure (α × Bytes) :=
  match choices.find? (·.1 == name) with
  | some choice => .ok (choice.2, rest)
  | none => failHere (.unknownVariant name (choices.map (·.1))) rest

/-- The null behind the key of a token. -/
def tokenNull (input : Bytes) : Except Failure Bytes :=
  match skipBlank input with
  | [] => failNext .endInValue []
  | 0x6e :: rest => restOfWord ull rest
  | rest => wrongTypeAt "unit" rest

/-- The closing brace behind a token. -/
def tokenEnd (input : Bytes) : Except Failure Bytes :=
  match skipBlank input with
  | [] => failHere .endInObject []
  | 0x7d :: rest => .ok rest
  | rest => failHere .expectedValue rest

/-- A token in an object, the opening brace read. -/
def tokenInObject {α : Type} (choices : List (String × α)) (input : Bytes) :
    Except Failure (α × Bytes) :=
  match skipBlank input with
  | [] => failNext .endInObject []
  | 0x22 :: rest => do
      let (name, rest) ← stringRest rest
      let (choice, rest) ← choose choices name rest
      pure (choice, ← tokenEnd (← tokenNull (← colon rest)))
  | 0x7d :: rest => failNext .expectedValue (0x7d :: rest)
  | rest => failNext .expectedKey rest

/-- A token, alone or in an object. -/
def token {α : Type} (choices : List (String × α)) (input : Bytes) :
    Except Failure (α × Bytes) :=
  match skipBlank input with
  | [] => failNext .endInValue []
  | 0x22 :: rest => do
      let (name, rest) ← stringRest rest
      choose choices name rest
  | 0x7b :: rest => tokenInObject choices rest
  | rest => failNext .expectedValue rest

end DocViews.Json
