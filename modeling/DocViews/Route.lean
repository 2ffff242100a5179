import DocViews.Request
import DocViews.Store

/-!
The ways in which the requests of a session get at their rows.
-/

namespace DocViews

/-- How a request gets at its rows. -/
inductive Route where
  | store
  /-- A submission that comes to this, whatever the query. -/
  | script (outcome : Except ViewError ScriptedSource)

instance : Transport Route Store ScriptedSource where
  submit route query timeout store :=
    match route with
    | .store => store.submit query timeout
    | .script outcome => ⟨outcome, store, []⟩

end DocViews
