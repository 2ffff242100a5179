import DocViews.Index.Plan
import DocViews.Namespace
import DocViews.Transport

/-!
Design documents kept in memory, which answer queries as a server would: a missing
design document or view is reported inside the stream. Two failures can be armed,
each for one submission.
-/

namespace DocViews

abbrev DesignDocument := Dictionary Index

structure Store where
  /-- Design documents under their qualified names. -/
  documents : Dictionary DesignDocument := .empty
  /-- What the next submission fails with. -/
  failNextSubmit : Option ViewError := none
  /-- After how many rows the next stream breaks off. -/
  failStreamAfter : Option Nat := none
  /-- Every query submitted so far, as it went over the wire. -/
  submitted : List Json.Value := []
  lastTimeout : Option Duration := none

namespace Store

def index? (store : Store) (qualified viewName : String) : Option Index := do
  let views ← store.documents.find? qualified
  Dictionary.find? viewName views

/-- Creates a view without entries, in place of one of the same name. -/
def upsertView (store : Store) (ns : Namespace) (designDocument viewName : String)
    (reduction : Option Reduction) : Store :=
  let qualified := ns.qualify designDocument
  let views := (store.documents.find? qualified).getD .empty
  { store with
    documents := store.documents.insert qualified
      (Dictionary.insert viewName ⟨[], reduction⟩ views) }

def emit (store : Store) (ns : Namespace) (designDocument viewName : String) (entry : Entry) :
    Except ViewError Store :=
  let qualified := ns.qualify designDocument
  match store.documents.find? qualified with
  | none => .error (.designDocumentNotFound qualified)
  | some views =>
      match Dictionary.find? viewName views with
      | none => .error (.viewNotFound (qualified ++ "/" ++ viewName))
      | some index =>
          let grown : Index := { index with entries := index.entries ++ [entry] }
          .ok { store with
            documents := store.documents.insert qualified (Dictionary.insert viewName grown views) }

/-- Removes a design document with all its views. The flag tells whether there was one. -/
def dropDesignDocument (store : Store) (ns : Namespace) (designDocument : String) :
    Bool × Store :=
  let qualified := ns.qualify designDocument
  ((store.documents.find? qualified).isSome,
    { store with documents := store.documents.erase qualified })

def indexSize (store : Store) (ns : Namespace) (designDocument viewName : String) : Option Nat :=
  (store.index? (ns.qualify designDocument) viewName).map (·.entries.length)

def armSubmitFailure (store : Store) (error : ViewError) : Store :=
  { store with failNextSubmit := some error }

def armStreamFailure (store : Store) (rows : Nat) : Store :=
  { store with failStreamAfter := some rows }

/-- What a query is answered with: the rows and counts, and what is said for debugging. -/
structure Reply where
  answer : Answer
  debug : Option Json.Value

/-- The namespace of a query; production if it names none. -/
def namespaceOf (q : EncodedQuery) : Except Marker Namespace :=
  match q.string? QueryField.namespace with
  | none => .ok .production
  | some token =>
      match Vocabulary.parse token with
      | .ok ns => .ok ns
      | .error e => Plan.refuse e.message

/-- The index that a query is about, under the names the server uses. -/
def locate (documents : Dictionary DesignDocument) (qualified viewName : String) :
    Except Marker Index :=
  match documents.find? qualified with
  | none => .error {
      code := 502
      message := "design document " ++ qualified ++ " not found"
      context := some (.ofMembers [("design_document", .string qualified)]) }
  | some views =>
      match Dictionary.find? viewName views with
      | none => .error {
          code := 501
          message := "view " ++ viewName ++ " not found in " ++ qualified
          context := none }
      | some index => .ok index

/-- Answers a query from the design documents, or says why it cannot. -/
def reply (documents : Dictionary DesignDocument) (q : EncodedQuery) : Except Marker Reply := do
  let ns ← namespaceOf q
  let qualified := ns.qualify ((q.string? QueryField.documentName).getD "")
  let viewName := (q.string? QueryField.viewName).getD ""
  let index ← locate documents qualified viewName
  let plan ← Plan.ofQuery q viewName index.reduction
  let answer := plan.answer index
  let debug := if (q.bool? QueryField.debug).getD false then
      some (Json.Value.ofMembers [
        ("design_document", .string qualified),
        ("view", .string viewName),
        ("matched_rows", .ofNat answer.matched)])
    else none
  pure { answer, debug }

/-- Answers a query in a build with overflow checks. Such a build panics where a row overflows,
and then there is no answer at all. -/
def reply? (documents : Dictionary DesignDocument) (q : EncodedQuery) :
    Option (Except Marker Reply) :=
  match reply documents q with
  | .ok r => if r.answer.overflows then none else some (.ok r)
  | .error m => some (.error m)

def Reply.trailer (r : Reply) : Json.Value :=
  let totalRows := match r.answer.totalRows with
    | some n => [("total_rows", Json.Value.ofNat n)]
    | none => []
  let debug := match r.debug with
    | some debug => [("debug", debug)]
    | none => []
  .ofMembers (totalRows ++ debug)

def rowItem (row : Json.Value) : Pulled := .ok (.row row.bytes)

/-- The stream of an answer. One that breaks off after as many rows as there are, or
fewer, ends in a fault and has no trailer. -/
def Reply.source (r : Reply) (failAfter : Option Nat) : ScriptedSource :=
  let whole : ScriptedSource :=
    ⟨r.answer.rows.map rowItem ++ [.ok .finished], some (.ok r.trailer.bytes)⟩
  match failAfter with
  | none => whole
  | some n =>
      if n ≤ r.answer.rows.length then
        ⟨(r.answer.rows.take n).map rowItem
          ++ [.error (.foreign "view node connection closed mid-stream")], none⟩
      else whole

def refusal (m : Marker) : ScriptedSource := ⟨[.ok (.marker m)], none⟩

/-- Records a query and answers it, unless a failure is armed. A stream failure stays
armed when the submission itself fails. Sums that overflow wrap around here. -/
def submit (store : Store) (q : EncodedQuery) (timeout : Duration) :
    Submission Store ScriptedSource :=
  let recorded := { store with
    submitted := store.submitted ++ [q.toJson], lastTimeout := some timeout }
  match store.failNextSubmit with
  | some error => ⟨.error error, { recorded with failNextSubmit := none }, []⟩
  | none =>
      let disarmed := { recorded with failStreamAfter := none }
      match reply store.documents q with
      | .ok r =>
          ⟨.ok (r.source store.failStreamAfter), disarmed, [.debug "answering view query" [
            ("rows", Signal.number r.answer.rows.length),
            ("total_rows", Signal.optionalNumber r.answer.totalRows)]]⟩
      | .error m =>
          ⟨.ok (refusal m), disarmed, [.debug "view query failed on the server" [
            ("code", Signal.number m.code)]]⟩

/-- Submits a query in a build with overflow checks. There is no result where it panics, which
leaves the store locked for good. -/
def submit? (store : Store) (q : EncodedQuery) (timeout : Duration) :
    Option (Submission Store ScriptedSource) :=
  match store.failNextSubmit with
  | some _ => some (store.submit q timeout)
  | none => (reply? store.documents q).map fun _ => store.submit q timeout

end Store

end DocViews
