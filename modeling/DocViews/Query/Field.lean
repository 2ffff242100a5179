/-!
The names of the parameters of an encoded query.
-/

namespace DocViews

inductive QueryField where
  | bucketName
  | documentName
  | viewName
  | «namespace»
  | clientContextId
  | debug
  | endKey
  | endKeyDocId
  | group
  | groupLevel
  | inclusiveEnd
  | key
  | keys
  | limit
  | onError
  | order
  | reduce
  | scanConsistency
  | serializer
  | skip
  | startKey
  | startKeyDocId
  | timeout
  deriving DecidableEq, Repr

namespace QueryField

def name : QueryField → String
  | .bucketName => "bucket_name"
  | .documentName => "document_name"
  | .viewName => "view_name"
  | .namespace => "namespace"
  | .clientContextId => "client_context_id"
  | .debug => "debug"
  | .endKey => "end_key"
  | .endKeyDocId => "end_key_doc_id"
  | .group => "group"
  | .groupLevel => "group_level"
  | .inclusiveEnd => "inclusive_end"
  | .key => "key"
  | .keys => "keys"
  | .limit => "limit"
  | .onError => "on_error"
  | .order => "order"
  | .reduce => "reduce"
  | .scanConsistency => "scan_consistency"
  | .serializer => "serializer"
  | .skip => "skip"
  | .startKey => "start_key"
  | .startKeyDocId => "start_key_doc_id"
  | .timeout => "timeout"

instance : Coe QueryField String := ⟨name⟩

end QueryField

end DocViews
