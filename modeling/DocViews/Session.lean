import DocViews.Bucket
import DocViews.Route
import DocViews.Row.Sample

/-!
Sessions: one bucket over one store, and requests under names that take their steps
in any order. Requests go through the store or play back a script of their own.
-/

namespace DocViews

/-- What a request makes of the value of a row: another value, or an error. -/
structure RowKind where
  decode : Json.Value → Except Json.Cause Json.Value

namespace RowKind

/-- The rows of a type, shown as JSON. -/
def ofType (ρ : Type) [RowType ρ] : RowKind :=
  ⟨fun v => (RowType.ofValue v : Except Json.Cause ρ).map RowType.toValue⟩

def row : RowKind := ofType Row

def raw : RowKind := ofType Json.Value

def keyOnly : RowKind := ofType KeyOnly

def numbered : RowKind := ofType NumberedRow

end RowKind

/-- A request of a session. Its rows are JSON, whatever they are decoded to. -/
abbrev OpenRequest := Request Route ScriptedSource Json.Value

structure Session where
  bucket : Bucket
  store : Store := {}
  requests : Dictionary OpenRequest := .empty
  /-- Everything that could be observed so far. -/
  signals : List Signal := []

inductive RequestCall where
  | submit
  | next
  | execute
  | rows (limit : Option Nat)
  | status
  deriving DecidableEq, Repr

inductive Step where
  | upsertView (ns : Namespace) (designDocument viewName : String) (reduction : Option Reduction)
  | emit (ns : Namespace) (designDocument viewName : String) (entry : Entry)
  | dropDesignDocument (ns : Namespace) (designDocument : String)
  | indexSize (ns : Namespace) (designDocument viewName : String)
  | armSubmitFailure (error : ViewError)
  | armStreamFailure (rows : Nat)
  | submitted
  | lastTimeout
  | describeBucket
  /-- Submits a query without a request, and reads its stream to the first item that is no row. -/
  | direct (query : EncodedQuery) (timeout : Duration)
  | openView (name : String) (kind : RowKind) (designDocument viewName : String)
      (options : QueryOptions)
  | openQuery (name : String) (kind : RowKind) (route : Route) (query : EncodedQuery)
      (timeout : Duration)
  /-- A request for a query that was submitted elsewhere. -/
  | openSource (name : String) (kind : RowKind) (source : ScriptedSource) (query : EncodedQuery)
  | call (name : String) (call : RequestCall)

inductive CallAnswer where
  | submitted (answer : Except ViewError Unit)
  | next (answer : Option (Except ViewError Json.Value))
  | executed (answer : Except ViewError (List Json.Value))
  | rows (answer : Except ViewError (List (Except ViewError Json.Value)))
  | status

inductive Reply where
  | done
  | flag (b : Bool)
  | size (n : Option Nat)
  | queries (wire : List Json.Value)
  | timeout (d : Option Duration)
  | bucket (b : Bucket)
  | failure (error : ViewError)
  | streamed (items : List Pulled) (trailer again : Except Fault Bytes)
  | opened (stage : Stage)
  | noRequest
  | called (answer : CallAnswer) (after : OpenRequest)

namespace Session

/-- Puts a request under a name, in place of one that had it before. -/
def enroll (session : Session) (name : String) (kind : RowKind) (request : OpenRequest)
    (signals : List Signal) : Reply × Session :=
  let request := { request with decode := kind.decode }
  (.opened request.stage, { session with
    requests := session.requests.insert name request
    signals := session.signals ++ signals })

/-- Stores what a call on a request has left behind. -/
def keep {α : Type} (session : Session) (name : String) (answer : α → CallAnswer)
    (result : Request.Result Route Store ScriptedSource Json.Value α) : Reply × Session :=
  (.called (answer result.answer) result.request, { session with
    store := result.state
    requests := session.requests.insert name result.request
    signals := session.signals ++ result.signals })

/-- A call on the request of this name. -/
def call (session : Session) (name : String) (c : RequestCall) : Reply × Session :=
  match session.requests.find? name with
  | none => (.noRequest, session)
  | some request =>
      match c with
      | .submit => session.keep name .submitted (request.submit session.store)
      | .next => session.keep name .next (request.next session.store)
      | .execute => session.keep name .executed (request.execute session.store)
      | .rows limit => session.keep name .rows (request.rows limit session.store)
      | .status => (.called .status request, session)

/-- Submits a query without a request. -/
def direct (session : Session) (query : EncodedQuery) (timeout : Duration) : Reply × Session :=
  let sent := session.store.submit query timeout
  let session := { session with
    store := sent.state, signals := session.signals ++ sent.log.map .log }
  match sent.outcome with
  | .error error => (.failure error, session)
  | .ok source =>
      let (items, source) := FiniteSource.pullAll source
      let (trailer, source) := RowSource.trailer source
      (.streamed items trailer (RowSource.trailer source).1, session)

def step (session : Session) : Step → Reply × Session
  | .upsertView ns designDocument viewName reduction =>
      (.done, { session with
        store := session.store.upsertView ns designDocument viewName reduction })
  | .emit ns designDocument viewName entry =>
      match session.store.emit ns designDocument viewName entry with
      | .ok store => (.done, { session with store })
      | .error error => (.failure error, session)
  | .dropDesignDocument ns designDocument =>
      let (existed, store) := session.store.dropDesignDocument ns designDocument
      (.flag existed, { session with store })
  | .indexSize ns designDocument viewName =>
      (.size (session.store.indexSize ns designDocument viewName), session)
  | .armSubmitFailure error =>
      (.done, { session with store := session.store.armSubmitFailure error })
  | .armStreamFailure rows =>
      (.done, { session with store := session.store.armStreamFailure rows })
  | .submitted => (.queries session.store.submitted, session)
  | .lastTimeout => (.timeout session.store.lastTimeout, session)
  | .describeBucket => (.bucket session.bucket, session)
  | .direct query timeout => session.direct query timeout
  | .openView name kind designDocument viewName options =>
      match session.bucket.viewQuery Route.store designDocument viewName options with
      | .ok (request, signals) => session.enroll name kind request signals
      | .error error => (.failure error, session)
  | .openQuery name kind route query timeout =>
      session.enroll name kind (.new route query timeout) []
  | .openSource name kind source query => session.enroll name kind (.ofSource source query) []
  | .call name c => session.call name c

/-- Takes steps one after another. -/
def run (session : Session) : List Step → List Reply × Session
  | [] => ([], session)
  | first :: more =>
      let (reply, session) := session.step first
      let (replies, session) := session.run more
      (reply :: replies, session)

end Session

end DocViews
