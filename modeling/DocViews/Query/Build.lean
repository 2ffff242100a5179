import DocViews.Query.Encoded
import DocViews.Query.Options

/-!
Building a query: the counts and the timeout are checked in a fixed order, then
everything that was set is encoded under its field.
-/

namespace DocViews

/-- A query that has been checked and encoded. -/
structure Query where
  bucketName : String
  designDocument : String
  viewName : String
  «namespace» : Namespace
  order : Option Direction
  onError : Option OnError
  scanConsistency : Option ScanConsistency
  timeoutMicros : Option Nat
  serializer : Option Serializer
  encoded : EncodedQuery

namespace Query

/-- The largest count a query can have. -/
def maxCount : Nat := 0xffffffff

/-- A count that is not negative and fits 32 bits. -/
def checkCount (field : QueryField) (n : Int) : Except ViewError Nat :=
  if 0 ≤ n ∧ n ≤ maxCount then .ok n.toNat
  else .error (.invalidArgument
    (field.name ++ " must be between 0 and " ++ String.ofList (digitChars maxCount)
      ++ ", got " ++ String.ofList (integerChars n)))

/-- The parameters of a query whose counts and timeout have been checked, each only if
it was set. -/
def params (bucketName designDocument viewName : String) (options : QueryOptions)
    (groupLevel limit skip timeoutMicros : Option Nat) : List (QueryField × Option Param) :=
  [ (.bucketName, some (.string bucketName)),
    (.documentName, some (.string designDocument)),
    (.viewName, some (.string viewName)),
    (.namespace, options.namespace.map (.string <| Vocabulary.token ·)),
    (.clientContextId, options.clientContextId.map .string),
    (.debug, options.debug.map .bool),
    (.key, options.key.map (.string ·.text)),
    (.keys, options.keys.map fun keys => .strings (keys.map (·.text))),
    (.startKey, options.startKey.map (.string ·.text)),
    (.endKey, options.endKey.map (.string ·.text)),
    (.startKeyDocId, options.startKeyDocId.map .string),
    (.endKeyDocId, options.endKeyDocId.map .string),
    (.inclusiveEnd, options.inclusiveEnd.map .bool),
    (.group, options.group.map .bool),
    (.groupLevel, groupLevel.map (.natural <| .ofNat ·)),
    (.limit, limit.map (.natural <| .ofNat ·)),
    (.skip, skip.map (.natural <| .ofNat ·)),
    (.reduce, options.reduce.map .bool),
    (.order, options.order.map (.string <| Vocabulary.token ·)),
    (.onError, options.onError.map (.string <| Vocabulary.token ·)),
    (.scanConsistency, options.scanConsistency.map (.string <| Vocabulary.token ·)),
    (.timeout, timeoutMicros.map (.natural <| .ofNat ·)),
    (.serializer, options.serializer.map .serializer) ]

/-- The parameters that were set, under the names of their fields. -/
def encode (params : List (QueryField × Option Param)) : EncodedQuery :=
  .ofPairs (params.filterMap fun (field, param) => param.map (field.name, ·))

/-- Checks the options and encodes them. The first count that is out of range, or else
a timeout that has no microseconds, is the error. -/
def build (bucketName designDocument viewName : String) (options : QueryOptions) :
    Except ViewError Query := do
  let groupLevel ← options.groupLevel.mapM (checkCount .groupLevel)
  let limit ← options.limit.mapM (checkCount .limit)
  let skip ← options.skip.mapM (checkCount .skip)
  let timeoutMicros ← options.timeout.mapM Timeout.toMicros
  let set := params bucketName designDocument viewName options groupLevel limit skip timeoutMicros
  pure {
    bucketName, designDocument, viewName, timeoutMicros
    «namespace» := options.namespace.getD .production
    order := options.order
    onError := options.onError
    scanConsistency := options.scanConsistency
    serializer := options.serializer
    encoded := encode set }

/-- The timeout of the query itself, in the precision in which it is encoded. -/
def timeout (q : Query) : Option Duration := q.timeoutMicros.map .ofMicroseconds

end Query

end DocViews
