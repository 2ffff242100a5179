import DocViews.Json.Numeral
import DocViews.Json.StringText

/-!
Values in a JSON text. Reading recurses on how many levels of nesting are still
allowed: the reader of an array's items is the reader with one level less. Whatever
stands between items and between members is the same for every kind of item, so
those loops take the reader of an item as an argument.
-/

namespace DocViews.Json

/-- The items of an array after the first, up to and with the closing bracket. Every
step takes a byte; `bound` has as many bytes as steps are allowed. -/
def laterItems {α : Type} (item : Bytes → Except Failure (α × Bytes)) :
    Bytes → Bytes → Except Failure (List α × Bytes)
  | [], rest => failNext .endInList rest
  | _ :: bound, input =>
      match skipBlank input with
      | [] => failNext .endInList []
      | 0x5d :: rest => .ok ([], rest)
      | 0x2c :: rest =>
          match skipBlank rest with
          | [] => failNext .endInValue []
          | 0x5d :: rest => failNext .trailingComma (0x5d :: rest)
          | rest => do
              let (first, rest) ← item rest
              let (more, rest) ← laterItems item bound rest
              pure (first :: more, rest)
      | rest => failNext .expectedCommaOrBracket rest

/-- The items of an array, its opening bracket read. -/
def items {α : Type} (item : Bytes → Except Failure (α × Bytes)) (input : Bytes) :
    Except Failure (List α × Bytes) :=
  match skipBlank input with
  | [] => failNext .endInList []
  | 0x5d :: rest => .ok ([], rest)
  | rest => do
      let (first, rest) ← item rest
      let (more, rest) ← laterItems item rest rest
      pure (first :: more, rest)

/-- The members of an object after the first, up to and with the closing brace. A
member is read by `member` from behind its key; it takes up what it read into a state. -/
def laterMembers {α : Type} (member : String → α → Bytes → Except Failure (α × Bytes)) :
    Bytes → α → Bytes → Except Failure (α × Bytes)
  | [], _, rest => failNext .endInObject rest
  | _ :: bound, state, input =>
      match skipBlank input with
      | [] => failNext .endInObject []
      | 0x7d :: rest => .ok (state, rest)
      | 0x2c :: rest =>
          match skipBlank rest with
          | [] => failNext .endInValue []
          | 0x22 :: rest => do
              let (key, rest) ← stringRest rest
              let (state, rest) ← member key state rest
              laterMembers member bound state rest
          | 0x7d :: rest => failNext .trailingComma (0x7d :: rest)
          | rest => failNext .expectedKey rest
      | rest => failNext .expectedCommaOrBrace rest

/-- The members of an object, its opening brace read. -/
def members {α : Type} (member : String → α → Bytes → Except Failure (α × Bytes)) (state : α)
    (input : Bytes) : Except Failure (α × Bytes) :=
  match skipBlank input with
  | [] => failNext .endInObject []
  | 0x7d :: rest => .ok (state, rest)
  | 0x22 :: rest => do
      let (key, rest) ← stringRest rest
      let (state, rest) ← member key state rest
      laterMembers member rest state rest
  | rest => failNext .expectedKey rest

/-- A value that is neither array nor object. The input has no blank in front. -/
def scalar : Bytes → Except Failure (Value × Bytes)
  | [] => failNext .endInValue []
  | 0x6e :: rest => do pure (.null, ← restOfWord ull rest)
  | 0x74 :: rest => do pure (.bool true, ← restOfWord rue rest)
  | 0x66 :: rest => do pure (.bool false, ← restOfWord alse rest)
  | 0x22 :: rest => do
      let (s, rest) ← stringRest rest
      pure (.string s, rest)
  | b :: rest =>
      if b = 0x2d ∨ isDigit b then do
        let (n, rest) ← number (b :: rest)
        pure (.number n, rest)
      else failNext .expectedValue (b :: rest)

/-- A member of an object: a colon and a value, put under the key. Of two members with
one key the later one stays. -/
def memberOf (value : Bytes → Except Failure (Value × Bytes)) (key : String)
    (before : Dictionary Value) (input : Bytes) : Except Failure (Dictionary Value × Bytes) := do
  let rest ← colon input
  let (value, rest) ← value rest
  pure (before.insert key value, rest)

/-- A value with at most so many levels of arrays and objects in it. -/
def value : Nat → Bytes → Except Failure (Value × Bytes)
  | levels, input =>
      match levels, skipBlank input with
      | 0, 0x5b :: rest => failNext .tooDeep (0x5b :: rest)
      | 0, 0x7b :: rest => failNext .tooDeep (0x7b :: rest)
      | levels + 1, 0x5b :: rest => do
          let (read, rest) ← items (value levels) rest
          pure (.array read, rest)
      | levels + 1, 0x7b :: rest => do
          let (read, rest) ← members (memberOf (value levels)) .empty rest
          pure (.object read.pairs, rest)
      | _, rest => scalar rest

/-- How many levels of arrays and objects a text may have. -/
def maxLevels : Nat := 127

/-- The value a text holds, with nothing but blanks around it. -/
def read (text : Bytes) : Except Error Value := readAll (value maxLevels) text

/-- The value a string holds. -/
def readString (text : String) : Except Error Value := read (utf8 text)

end DocViews.Json
