import DocViews.Config
import DocViews.Query.Build
import DocViews.Request

/-!
Buckets: a name and a configuration under which view queries are built. Opening a
request sends nothing.
-/

namespace DocViews

structure Bucket where
  name : String
  config : Config
  deriving DecidableEq, Repr

namespace Bucket

variable {κ σ ρ : Type}

/-- Builds a query, and settles its timeout: its own, or else the configured one. -/
def prepare (b : Bucket) (designDocument viewName : String) (options : QueryOptions) :
    Except ViewError (Query × Duration) := do
  let query ← Query.build b.name designDocument viewName options
  pure (query, query.timeout.getD b.config.viewTimeout)

/-- The log entry for a query that was built. -/
def built (b : Bucket) (query : Query) : Signal :=
  .debug "view query built" [
    ("bucket", b.name),
    ("design_document", query.designDocument),
    ("view_name", query.viewName),
    ("namespace", Vocabulary.token query.namespace)]

/-- Opens a request for a view, to be submitted through a transport. -/
def viewQuery [RowType ρ] (b : Bucket) (transport : κ) (designDocument viewName : String)
    (options : QueryOptions) : Except ViewError (Request κ σ ρ × List Signal) := do
  let (query, timeout) ← b.prepare designDocument viewName options
  pure (.new transport query.encoded timeout, [b.built query])

end Bucket

end DocViews
