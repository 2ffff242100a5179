import DocViews.Proofs.Bucket
import DocViews.Proofs.Index.Sums
import DocViews.Proofs.Store.Contents

/-!
What a store holds cannot break the streams that it answers with, as long as every key and value
was emitted with a level of nesting to spare: a row takes up one level, and the client reads rows
as deep as it reads anything. Numbers may change on the way, since floats are rounded twice when
they are read, but what was decoded once can be decoded again. What is left is a build with
overflow checks, which panics over sums of integers that have more than 64 bits.
-/

namespace DocViews

open Json (Decodable DecodableInside Nested ReadAs Exact)

/-- A row whose key and value leave a level to spare is decoded as some row. -/
theorem Row.readAs {row : Row} (key : Nested Json.fieldLevels row.key)
    (value : Nested Json.fieldLevels row.value) :
    ∃ delivered : Row, ReadAs Json.maxLevels row.toValue delivered.toValue := by
  obtain ⟨_, hkey, -⟩ := key.readAs
  obtain ⟨_, hvalue, -⟩ := value.readAs
  exact ⟨_, Row.readAs_toValue hkey hvalue⟩

namespace Query.Encodes

variable {q : EncodedQuery} {designDocument viewName : String} {o : QueryOptions}

end Query.Encodes

namespace Store

variable {store : Store} {q : EncodedQuery} {designDocument viewName : String} {o : QueryOptions}

end Store

namespace Bucket

variable {b : Bucket} {designDocument viewName : String} {o : QueryOptions}

section Deepest

end Deepest

end Bucket

end DocViews
