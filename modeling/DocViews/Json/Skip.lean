import DocViews.Json.Reader

/-!
Passing over a value that nobody wants. Only its outline is checked: numbers are not
evaluated, strings are not decoded, and nesting has no limit, since the open
brackets are kept in a list.
-/

namespace DocViews.Json.Skip

/-- A bracket that is still open. -/
inductive Bracket where
  | list
  | object
  deriving DecidableEq, Repr

def Bracket.closing : Bracket → UInt8
  | .list => 0x5d
  | .object => 0x7d

def Bracket.endInside : Bracket → Cause
  | .list => .endInList
  | .object => .endInObject

def Bracket.expectedCommaOrEnd : Bracket → Cause
  | .list => .expectedCommaOrBracket
  | .object => .expectedCommaOrBrace

/-- An escape, its backslash read. Surrogates need no partner here. -/
def escape : Bytes → Except Failure Bytes
  | [] => failHere .endInString []
  | 0x75 :: rest => do
      let (_, rest) ← hexCode rest
      pure rest
  | b :: rest =>
      if b ∈ [0x22, 0x5c, 0x2f, 0x62, 0x66, 0x6e, 0x72, 0x74] then .ok rest
      else failHere .invalidEscape rest

/-- A string, its opening quote read. A control character is refused before it is read.
Every step takes a byte; `bound` has as many bytes as steps are allowed. -/
def stringRest : Bytes → Bytes → Except Failure Bytes
  | _, [] => failHere .endInString []
  | [], rest => failHere .endInString rest
  | _ :: bound, b :: rest =>
      if b = 0x22 then .ok rest
      else if b = 0x5c then do
        let rest ← escape rest
        stringRest bound rest
      else if b < 0x20 then failHere .controlCharacter (b :: rest)
      else stringRest bound rest

def digits (input : Bytes) : Bytes := input.dropWhile isDigit

def powerRest (input : Bytes) : Except Failure Bytes :=
  let unsigned := match input with
    | 0x2b :: rest => rest
    | 0x2d :: rest => rest
    | rest => rest
  match unsigned with
  | [] => failHere .invalidNumber []
  | b :: rest => if isDigit b then .ok (digits rest) else failHere .invalidNumber rest

def power : Bytes → Except Failure Bytes
  | 0x65 :: rest => powerRest rest
  | 0x45 :: rest => powerRest rest
  | rest => .ok rest

def fraction : Bytes → Except Failure Bytes
  | 0x2e :: rest =>
      match digitsOf rest with
      | ([], rest) => failNext .invalidNumber rest
      | (_, rest) => .ok rest
  | rest => .ok rest

def unsignedNumber : Bytes → Except Failure Bytes
  | [] => failHere .invalidNumber []
  | b :: rest =>
      if b = 0x30 then
        match digitsOf rest with
        | ([], rest) => do power (← fraction rest)
        | _ => failNext .invalidNumber rest
      else if isDigit b then do power (← fraction (digits rest))
      else failHere .invalidNumber rest

/-- A scalar, or the bracket that opens an array or an object. -/
def scalarOrBracket : Bytes → Except Failure (Option Bracket × Bytes)
  | [] => failNext .endInValue []
  | 0x6e :: rest => do pure (none, ← restOfWord ull rest)
  | 0x74 :: rest => do pure (none, ← restOfWord rue rest)
  | 0x66 :: rest => do pure (none, ← restOfWord alse rest)
  | 0x22 :: rest => do pure (none, ← stringRest rest rest)
  | 0x5b :: rest => .ok (some .list, rest)
  | 0x7b :: rest => .ok (some .object, rest)
  | 0x2d :: rest => do pure (none, ← unsignedNumber rest)
  | b :: rest =>
      if isDigit b then do pure (none, ← unsignedNumber (b :: rest))
      else failNext .expectedValue (b :: rest)

/-- What stands before the next value inside a bracket: in an object, a key and a colon. -/
def beforeValue : Bracket → Bytes → Except Failure Bytes
  | .list, rest => .ok rest
  | .object, input =>
      match skipBlank input with
      | [] => failNext .endInObject []
      | 0x22 :: rest => do colon (← stringRest rest rest)
      | rest => failNext .expectedKey rest

/-- After a value: closes what closes here. The answer is none once nothing is open, or
the brackets open around the value that comes next. -/
def afterValue : List Bracket → Bytes → Except Failure (Option (List Bracket) × Bytes)
  | [], rest => .ok (none, rest)
  | bracket :: outer, input =>
      match skipBlank input with
      | [] => failNext bracket.endInside []
      | b :: rest =>
          if b = 0x2c then do pure (some (bracket :: outer), ← beforeValue bracket rest)
          else if b = bracket.closing then afterValue outer rest
          else failNext bracket.expectedCommaOrEnd (b :: rest)

/-- After an opening bracket: it may close at once. -/
def afterBracket (bracket : Bracket) (outer : List Bracket) (input : Bytes) :
    Except Failure (Option (List Bracket) × Bytes) :=
  match skipBlank input with
  | [] => failNext bracket.endInside []
  | b :: rest =>
      if b = bracket.closing then afterValue outer rest
      else do pure (some (bracket :: outer), ← beforeValue bracket (b :: rest))

/-- Passes over values until none of the brackets is open. Every step takes a byte;
`bound` has as many bytes as steps are allowed. -/
def values : Bytes → List Bracket → Bytes → Except Failure Bytes
  | [], _, rest => failNext .endInValue rest
  | _ :: bound, opened, input => do
      let (bracket?, rest) ← scalarOrBracket (skipBlank input)
      let (next?, rest) ← match bracket? with
        | none => afterValue opened rest
        | some bracket => afterBracket bracket opened rest
      match next? with
      | none => pure rest
      | some inner => values bound inner rest

def value (input : Bytes) : Except Failure Bytes := values input [] input

end DocViews.Json.Skip
