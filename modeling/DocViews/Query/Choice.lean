import DocViews.Vocabulary

/-!
The settings of a query that are a choice between names.
-/

namespace DocViews

/-- The direction in which the index is walked. -/
inductive Direction where
  | ascending
  | descending
  deriving DecidableEq, Repr

instance : Vocabulary Direction where
  kind := "order"
  all := [.ascending, .descending]
  token
    | .ascending => "ascending"
    | .descending => "descending"

/-- What the server does when a view function fails on some node. -/
inductive OnError where
  | stop
  | proceed
  deriving DecidableEq, Repr

instance : Vocabulary OnError where
  kind := "on_error"
  all := [.stop, .proceed]
  token
    | .stop => "stop"
    | .proceed => "continue"

/-- How stale the index may be that answers a query. -/
inductive ScanConsistency where
  /-- The index as it is now. -/
  | notBounded
  /-- The index is updated before the answer. -/
  | requestPlus
  /-- The index as it is now, updated after the answer. -/
  | updateAfter
  deriving DecidableEq, Repr

instance : Vocabulary ScanConsistency where
  kind := "scan_consistency"
  all := [.notBounded, .requestPlus, .updateAfter]
  token
    | .notBounded => "not_bounded"
    | .requestPlus => "request_plus"
    | .updateAfter => "update_after"

end DocViews
