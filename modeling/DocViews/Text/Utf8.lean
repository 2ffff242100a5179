/-!
UTF-8. Decoding accepts the shortest form of a code point only, and no surrogates;
`validLength` is how far a byte string can be decoded from its start.
-/

namespace DocViews

abbrev Bytes := List UInt8

namespace Utf8

def encode (cs : List Char) : Bytes := cs.flatMap String.utf8EncodeChar

/-- The six payload bits of a continuation byte. -/
def continuation? (b : UInt8) : Option Nat :=
  if 0x80 ≤ b ∧ b ≤ 0xBF then some (b.toNat - 0x80) else none

/-- The character with this code, unless a shorter form exists or there is none. -/
def charFrom? (least code : Nat) : Option Char :=
  if h : code.isValidChar then if least ≤ code then some (Char.ofNatAux code h) else none
  else none

/-- The first character and the bytes after it. -/
def decodeChar? : Bytes → Option (Char × Bytes)
  | [] => none
  | a :: rest =>
      if a < 0x80 then (charFrom? 0 a.toNat).map (·, rest)
      else if 0xC0 ≤ a ∧ a < 0xE0 then
        match rest with
        | b :: rest => do
            let b ← continuation? b
            let c ← charFrom? 0x80 ((a.toNat - 0xC0) * 64 + b)
            some (c, rest)
        | _ => none
      else if 0xE0 ≤ a ∧ a < 0xF0 then
        match rest with
        | b :: c :: rest => do
            let b ← continuation? b
            let c ← continuation? c
            let c ← charFrom? 0x800 (((a.toNat - 0xE0) * 64 + b) * 64 + c)
            some (c, rest)
        | _ => none
      else if 0xF0 ≤ a ∧ a < 0xF8 then
        match rest with
        | b :: c :: d :: rest => do
            let b ← continuation? b
            let c ← continuation? c
            let d ← continuation? d
            let c ← charFrom? 0x10000 ((((a.toNat - 0xF0) * 64 + b) * 64 + c) * 64 + d)
            some (c, rest)
        | _ => none
      else none

/-- The characters of the longest prefix that decodes, and the bytes after it. At
most `limit` characters are taken. -/
def decodeUpTo : Nat → Bytes → List Char × Bytes
  | 0, bytes => ([], bytes)
  | limit + 1, bytes =>
      match decodeChar? bytes with
      | none => ([], bytes)
      | some (c, rest) =>
          let (cs, rest) := decodeUpTo limit rest
          (c :: cs, rest)

/-- No byte string has more characters than bytes, so this limit is none. -/
def decodePrefix (bytes : Bytes) : List Char × Bytes := decodeUpTo bytes.length bytes

def decode? (bytes : Bytes) : Option (List Char) :=
  match decodePrefix bytes with
  | (cs, []) => some cs
  | _ => none

/-- The length of the longest prefix that decodes. -/
def validLength (bytes : Bytes) : Nat := bytes.length - (decodePrefix bytes).2.length

end Utf8

/-- The bytes of a string. -/
def utf8 (s : String) : Bytes := Utf8.encode s.toList

/-- The string with these bytes. -/
def ofUtf8? (bytes : Bytes) : Option String := (Utf8.decode? bytes).map String.ofList

end DocViews
