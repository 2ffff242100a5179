import DocViews.Json.RecordText

/-!
What a server tells about a whole result once its rows have ended.
-/

namespace DocViews

structure Metadata where
  /-- The number of entries in the index, whatever was selected; zero for a reduced result. -/
  totalRows : UInt64
  /-- Information for debugging, if the query asked for it. -/
  debug : Option Json.Value

namespace Metadata

def blank : Metadata := ⟨0, none⟩

def fields : List (Json.Field Metadata) := [
  ⟨"total_rows", fun metadata input => do
    let (totalRows, rest) ← Json.natural input
    pure ({ metadata with totalRows }, rest)⟩,
  ⟨"debug", fun metadata input => do
    let (debug, rest) ← Json.optionalValue Json.fieldLevels input
    pure ({ metadata with debug }, rest)⟩]

/-- The metadata that a text holds. -/
def read (text : Bytes) : Except Json.Error Metadata :=
  Json.readAll (Json.record "struct ViewMetaData" fields blank) text

/-- The metadata as an object, written in the order of the fields. -/
def toValue (metadata : Metadata) : Json.Value :=
  let debug := match metadata.debug with
    | some debug => [("debug", debug)]
    | none => []
  .object (("total_rows", .ofUInt64 metadata.totalRows) :: debug)

end Metadata

end DocViews
