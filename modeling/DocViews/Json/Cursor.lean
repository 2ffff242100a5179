import DocViews.Json.Error

/-!
Reading from the front of a byte string. A reader answers with what it read and the
bytes after it, or with a failure that says how many bytes were left; the position
of a failure is worked out once, from the whole text.
-/

namespace DocViews.Json

/-- A cause, and how many bytes were left where it arose. -/
structure Failure where
  cause : Cause
  left : Nat
  deriving DecidableEq, Repr

/-- Fails with everything before `rest` consumed. -/
def failHere {α : Type} (cause : Cause) (rest : Bytes) : Except Failure α :=
  .error ⟨cause, rest.length⟩

/-- Fails at the first byte of `rest`, which counts as the place if there is one. -/
def failNext {α : Type} (cause : Cause) (rest : Bytes) : Except Failure α :=
  .error ⟨cause, rest.length - 1⟩

/-- Space, line feed, tab and carriage return. -/
def isBlankByte (b : UInt8) : Bool := b == 0x20 || b == 0x0a || b == 0x09 || b == 0x0d

def skipBlank (input : Bytes) : Bytes := input.dropWhile isBlankByte

/-- The rest of a word that is one byte after another fixed. -/
def restOfWord : Bytes → Bytes → Except Failure Bytes
  | [], rest => .ok rest
  | _ :: _, [] => failHere .endInValue []
  | wanted :: more, b :: rest =>
      if b = wanted then restOfWord more rest else failHere .expectedWord rest

/-- What follows the first letter of `null`, `true` and `false`. -/
def ull : Bytes := [0x75, 0x6c, 0x6c]

def rue : Bytes := [0x72, 0x75, 0x65]

def alse : Bytes := [0x61, 0x6c, 0x73, 0x65]

/-- The colon between a key and its value. -/
def colon (input : Bytes) : Except Failure Bytes :=
  match skipBlank input with
  | 0x3a :: rest => .ok rest
  | [] => failNext .endInObject []
  | rest => failNext .expectedColon rest

/-- The position before the byte of this number. -/
def positionAt (text : Bytes) (index : Nat) : Position :=
  let before := text.take index
  ⟨before.count 0x0a + 1, (before.reverse.takeWhile (· != 0x0a)).length⟩

/-- Reads a whole text: only blanks may follow what the reader took. -/
def readAll {α : Type} (reader : Bytes → Except Failure (α × Bytes)) (text : Bytes) :
    Except Error α :=
  let outcome : Except Failure α := do
    let (result, rest) ← reader text
    match skipBlank rest with
    | [] => pure result
    | rest => failNext .trailingCharacters rest
  outcome.mapError fun failure =>
    ⟨failure.cause, some (positionAt text (text.length - failure.left))⟩

end DocViews.Json
