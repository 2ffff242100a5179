import DocViews.Collation
import DocViews.Query.Choice

/-!
Indexes: what the map function of a view emitted, in the order of emission, and how
that is ordered when the index is read.
-/

namespace DocViews

/-- One key and value that a document emitted. -/
structure Entry where
  id : String
  key : Json.Value
  value : Json.Value

/-- The reductions that are built in. -/
inductive Reduction where
  /-- How many entries there are. -/
  | count
  /-- The sum of the values that are numbers. -/
  | sum
  deriving DecidableEq, Repr

structure Index where
  entries : List Entry
  reduction : Option Reduction

namespace Entry

def order (a b : Entry) : Ordering := (collate a.key b.key).then (compare a.id b.id)

def toRow (e : Entry) : Json.Value :=
  .ofMembers [("id", .string e.id), ("key", e.key), ("value", e.value)]

end Entry

/-- The entries in the order in which a query meets them. Entries that tie on key and
document keep the order of emission, or its reverse. -/
def Index.scan (index : Index) : Direction → List Entry
  | .ascending => index.entries.mergeSort fun a b => (a.order b).isLE
  | .descending => (index.entries.mergeSort fun a b => (a.order b).isLE).reverse

end DocViews
