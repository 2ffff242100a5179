import DocViews.Namespace
import DocViews.Query.Choice
import DocViews.Query.Timeout
import DocViews.Serializer

/-!
What can be set for a query. Nothing is set by default, and settings that contradict
each other are left to the server.
-/

namespace DocViews

structure QueryOptions where
  clientContextId : Option String := none
  debug : Option Bool := none
  /-- Only entries with this key. -/
  key : Option Json.Value := none
  /-- The entries with any of these keys, in the order of the list. -/
  keys : Option (List Json.Value) := none
  startKey : Option Json.Value := none
  endKey : Option Json.Value := none
  /-- Where to start among entries that have the start key. -/
  startKeyDocId : Option String := none
  /-- Where to end among entries that have the end key. -/
  endKeyDocId : Option String := none
  inclusiveEnd : Option Bool := none
  group : Option Bool := none
  groupLevel : Option Int := none
  limit : Option Int := none
  skip : Option Int := none
  reduce : Option Bool := none
  «namespace» : Option Namespace := none
  order : Option Direction := none
  onError : Option OnError := none
  scanConsistency : Option ScanConsistency := none
  timeout : Option Timeout := none
  serializer : Option Serializer := none

end DocViews
