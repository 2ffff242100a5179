import DocViews.Json.Reader

/-!
Codecs between row payloads and JSON values. Two serializers are the same one only if
they have the same name, whatever they do.
-/

namespace DocViews

/-- A serializer without a state of its own: what a payload is decoded to is a function of the
payload. One that counts its calls, or decodes by what it has met before, is not among these. -/
structure Serializer where
  name : String
  encode : Json.Value → Bytes
  decode : Bytes → Except Json.Error Json.Value

namespace Serializer

instance : BEq Serializer := ⟨fun a b => a.name == b.name⟩

/-- Plain JSON, under a name. -/
def json (name : String) : Serializer := ⟨name, Json.Value.bytes, Json.read⟩

/-- Plain JSON with the bytes in reverse order. -/
def reversing (name : String) : Serializer :=
  ⟨name, fun v => v.bytes.reverse, fun payload => Json.read payload.reverse⟩

/-- What decodes the rows of a query that names no serializer. -/
def default : Serializer := json "default"

end Serializer

end DocViews
