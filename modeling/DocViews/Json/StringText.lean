import DocViews.Json.Cursor

/-!
Strings in a JSON text, read from behind the opening quote: escapes are resolved
byte by byte, and the bytes are decoded when the closing quote is reached.
-/

namespace DocViews.Json

def hexDigit? (b : UInt8) : Option Nat :=
  if 0x30 ≤ b ∧ b ≤ 0x39 then some (b.toNat - 0x30)
  else if 0x41 ≤ b ∧ b ≤ 0x46 then some (b.toNat - 0x41 + 10)
  else if 0x61 ≤ b ∧ b ≤ 0x66 then some (b.toNat - 0x61 + 10)
  else none

/-- Four hexadecimal digits. Fewer than four bytes are all consumed. -/
def hexCode : Bytes → Except Failure (Nat × Bytes)
  | a :: b :: c :: d :: rest =>
      match hexDigit? a, hexDigit? b, hexDigit? c, hexDigit? d with
      | some a, some b, some c, some d => .ok (((a * 16 + b) * 16 + c) * 16 + d, rest)
      | _, _, _, _ => failHere .invalidEscape rest
  | _ => failHere .endInString []

def isLeadingSurrogate (code : Nat) : Bool := 0xD800 ≤ code && code ≤ 0xDBFF

def isTrailingSurrogate (code : Nat) : Bool := 0xDC00 ≤ code && code ≤ 0xDFFF

/-- The second escape of a pair of surrogates, and the character the pair makes. -/
def trailingSurrogate (leading : Nat) : Bytes → Except Failure (Char × Bytes)
  | [] => failHere .endInString []
  | 0x5c :: rest =>
      match rest with
      | [] => failHere .endInString []
      | 0x75 :: rest => do
          let (code, rest) ← hexCode rest
          if isTrailingSurrogate code then
            pure (Char.ofNat ((leading - 0xD800) * 0x400 + (code - 0xDC00) + 0x10000), rest)
          else failHere .loneSurrogate rest
      | _ :: rest => failHere .unfinishedSurrogate rest
  | _ :: rest => failHere .unfinishedSurrogate rest

/-- The character of a `\u` escape, whose letter has been read. -/
def codeEscape (input : Bytes) : Except Failure (Char × Bytes) := do
  let (code, rest) ← hexCode input
  if isTrailingSurrogate code then failHere .loneSurrogate rest
  else if isLeadingSurrogate code then trailingSurrogate code rest
  else pure (Char.ofNat code, rest)

/-- The bytes an escape stands for; the backslash has been read. -/
def escape : Bytes → Except Failure (Bytes × Bytes)
  | [] => failHere .endInString []
  | 0x22 :: rest => .ok ([0x22], rest)
  | 0x5c :: rest => .ok ([0x5c], rest)
  | 0x2f :: rest => .ok ([0x2f], rest)
  | 0x62 :: rest => .ok ([0x08], rest)
  | 0x66 :: rest => .ok ([0x0c], rest)
  | 0x6e :: rest => .ok ([0x0a], rest)
  | 0x72 :: rest => .ok ([0x0d], rest)
  | 0x74 :: rest => .ok ([0x09], rest)
  | 0x75 :: rest => do
      let (c, rest) ← codeEscape rest
      pure (String.utf8EncodeChar c, rest)
  | _ :: rest => failHere .invalidEscape rest

/-- The bytes up to the closing quote. Every step takes a byte, so the input itself can be
the bound on the steps. -/
def stringBytes : Bytes → Bytes → Except Failure (Bytes × Bytes)
  | _, [] => failHere .endInString []
  | [], rest => failHere .endInString rest
  | _ :: bound, b :: rest =>
      if b = 0x22 then .ok ([], rest)
      else if b = 0x5c then do
        let (unescaped, rest) ← escape rest
        let (more, rest) ← stringBytes bound rest
        pure (unescaped ++ more, rest)
      else if b < 0x20 then failHere .controlCharacter rest
      else do
        let (more, rest) ← stringBytes bound rest
        pure (b :: more, rest)

/-- A string, its opening quote read. Bytes that are no UTF-8 are found when the string
is complete; the place is then as many bytes back as do not decode. -/
def stringRest (input : Bytes) : Except Failure (String × Bytes) := do
  let (raw, rest) ← stringBytes input input
  match ofUtf8? raw with
  | some s => pure (s, rest)
  | none => .error ⟨.invalidUnicode, rest.length + (raw.length - Utf8.validLength raw)⟩

end DocViews.Json
