import DocViews.Vocabulary

/-!
The two namespaces of design documents. Both kinds are stored under one kind of
name, those in development being marked by how their names begin.
-/

namespace DocViews

/-- Where a design document lives: served to everyone, or still in development. -/
inductive Namespace where
  | production
  | development
  deriving DecidableEq, Repr, Inhabited

namespace Namespace

instance : Vocabulary Namespace where
  kind := "namespace"
  all := [.production, .development]
  token
    | .production => "production"
    | .development => "development"

/-- The name a design document is stored under. -/
def qualify : Namespace → String → String
  | .production, name => name
  | .development, name => "dev_" ++ name

end Namespace

end DocViews
