import DocViews.Metadata
import DocViews.Row
import DocViews.Stage
import DocViews.Transport

/-!
Requests: a query that is submitted once and whose rows are pulled once. A request that
has not started holds a handle on its transport, one that is streaming holds a source, and
one that is done holds neither. Each operation moves these fields one by one, and has a
branch of its own for a field that is missing.

Every call runs to its answer. A call that is given up while the transport or the source has not
answered yet, which would leave the request between two stages, does not occur here.
-/

namespace DocViews

/-- A query ready to be submitted, or already submitted, with rows of type `ρ`, as it is between
two calls. -/
structure Request (κ σ ρ : Type) where
  query : EncodedQuery
  timeout : Duration
  /-- How a decoded payload becomes a row. -/
  decode : Json.Value → Except Json.Cause ρ
  stage : Stage
  /-- The handle through which the query can be submitted. -/
  transport : Option κ
  source : Option σ
  /-- The metadata, which there is once the rows have ended well. -/
  metadata? : Option Metadata
  rowsStreamed : Nat
  /-- Whether the beginning of the stream was noted, so that its duration can be recorded. -/
  timed : Bool

namespace Request

variable {κ ω σ ρ α : Type}

def new [RowType ρ] (transport : κ) (query : EncodedQuery) (timeout : Duration) :
    Request κ σ ρ where
  query := query
  timeout := timeout
  decode := RowType.ofValue
  stage := .notStarted
  transport := some transport
  source := none
  metadata? := none
  rowsStreamed := 0
  timed := false

/-- A request for a query that was submitted elsewhere; its timeout is the query's own. -/
def ofSource [RowType ρ] (source : σ) (query : EncodedQuery) : Request κ σ ρ where
  query := query
  timeout := .ofMicroseconds ((query.natural? QueryField.timeout).getD 0).toNat
  decode := RowType.ofValue
  stage := .streaming
  transport := none
  source := some source
  metadata? := none
  rowsStreamed := 0
  timed := true

def serializer (r : Request κ σ ρ) : Serializer := r.query.serializer?.getD .default

/-- What a call on a request answers, and what it leaves behind. -/
structure Result (κ ω σ ρ α : Type) where
  answer : α
  request : Request κ σ ρ
  /-- The state that the transports share. -/
  state : ω
  signals : List Signal

/-- What a step that leaves the transports alone answers, the request after it, and what
could be observed. -/
abbrev Outcome (κ σ ρ α : Type) := α × Request κ σ ρ × List Signal

/-- Ends a request for good. Whatever it held is released. -/
def fail (r : Request κ σ ρ) (error : ViewError) : Request κ σ ρ × List Signal :=
  ({ r with stage := .done, source := none, transport := none },
    [.count .streamErrors, .warn "view stream failed" [
      ("error", error.message), ("rows", Signal.number r.rowsStreamed)]])

def decodeRow (r : Request κ σ ρ) (payload : Bytes) : Except ViewError ρ :=
  match r.serializer.decode payload with
  | .error e => .error (.internal ("failed to decode view row: " ++ e.message))
  | .ok value =>
      match r.decode value with
      | .error cause => .error (.internal ("failed to decode view row: " ++ cause.describe))
      | .ok row => .ok row

def decodeTrailer (trailer : Except Fault Bytes) : Except ViewError Metadata :=
  match trailer with
  | .error fault => .error fault.toError
  | .ok payload =>
      match Metadata.read payload with
      | .error e => .error (.internal ("failed to decode view metadata: " ++ e.message))
      | .ok metadata => .ok metadata

/-- The error of a request that has lost its source. -/
def sourceMissing : ViewError := .internal "row source is missing"

def failWith (r : Request κ σ ρ) (error : ViewError) (before : List Signal) :
    Outcome κ σ ρ (Except ViewError α) :=
  let (failed, signals) := r.fail error
  (.error error, failed, before ++ signals)

/-- What can be observed of a stream that ends with this metadata. -/
def completion (r : Request κ σ ρ) (metadata : Metadata) : List Signal :=
  let duration : List Signal := if r.timed then [.count .streamDurations] else []
  [.call .trailer, .count .streamsCompleted] ++ duration
    ++ [.debug "view stream complete" [
      ("rows", Signal.number r.rowsStreamed),
      ("total_rows", Signal.number metadata.totalRows.toNat)]]

/-- The rows have ended: asks for the trailer, which decides whether they ended well. The
source is given up before it is asked. -/
def complete [RowSource σ] (r : Request κ σ ρ) : Outcome κ σ ρ (Except ViewError Unit) :=
  let closed := { r with stage := .done, source := none }
  match r.source with
  | none => closed.failWith sourceMissing [.fallback .noSourceAtEnd]
  | some source =>
      match decodeTrailer (RowSource.trailer source).1 with
      | .error error => closed.failWith error [.call .trailer]
      | .ok metadata =>
          (.ok (), { closed with metadata? := some metadata }, r.completion metadata)

/-- What a pull comes to: a row, an error, or the end. -/
abbrev Pull (ρ : Type) := Option (Except ViewError ρ)

def failPull (r : Request κ σ ρ) (error : ViewError) (before : List Signal) :
    Outcome κ σ ρ (Pull ρ) :=
  let (answer, failed, signals) := r.failWith error before
  (some answer, failed, signals)

def receive [RowSource σ] (r : Request κ σ ρ) : Pulled → Outcome κ σ ρ (Pull ρ)
  | .error fault => r.failPull fault.toError []
  | .ok (.row payload) =>
      let decoded : List Signal := [.call (.decode r.serializer.name payload)]
      match r.decodeRow payload with
      | .ok row =>
          (some (.ok row), { r with rowsStreamed := r.rowsStreamed + 1 },
            decoded ++ [.count .rowsStreamed])
      | .error error => r.failPull error decoded
  | .ok (.marker m) =>
      r.failPull (.ofMarker m) [.warn "in-stream view error" [
        ("code", Signal.number m.code), ("detail", m.message)]]
  | .ok .finished =>
      match r.complete with
      | (.ok (), after, signals) => (none, after, signals)
      | (.error error, after, signals) => (some (.error error), after, signals)

def pull [RowSource σ] (r : Request κ σ ρ) : Outcome κ σ ρ (Pull ρ) :=
  match r.source with
  | none => r.failPull sourceMissing [.fallback .noSource]
  | some source =>
      let (pulled, after) := RowSource.next source
      let (answer, request, signals) := { r with source := some after }.receive pulled
      (answer, request, .call (.next pulled) :: signals)

def span (r : Request κ σ ρ) : Signal :=
  .log (.span "submit" [
    ("design_document", (r.query.string? QueryField.documentName).getD ""),
    ("view", (r.query.string? QueryField.viewName).getD "")])

/-- Submits the query through a transport, which the request has given up already. -/
def submitThrough [Transport κ ω σ] (r : Request κ σ ρ) (transport : κ) (state : ω) :
    Result κ ω σ ρ (Except ViewError Unit) :=
  let sent := Transport.submit transport r.query r.timeout state
  let signals := [.count .queriesSubmitted, .call .submit] ++ sent.log.map .log
  match sent.outcome with
  | .ok source =>
      ⟨.ok (), { r with source := some source, stage := .streaming, timed := true }, sent.state,
        signals ++ [.debug "view query submitted" []]⟩
  | .error error =>
      let (answer, failed, signals) := r.failWith error signals
      ⟨answer, failed, sent.state, signals⟩

/-- Submits the query. Only a request that has not started can be submitted. -/
def submit [Transport κ ω σ] (r : Request κ σ ρ) (state : ω) :
    Result κ ω σ ρ (Except ViewError Unit) :=
  if r.stage.canSubmit then
    match r.transport with
    | none => ⟨.error .alreadyQueried, r, state, [r.span, .fallback .noTransport]⟩
    | some transport =>
        let sent := { r with transport := none }.submitThrough transport state
        { sent with signals := r.span :: sent.signals }
  else ⟨.error .alreadyQueried, r, state, [r.span]⟩

/-- Submits a request that has not started, and no other. -/
def ensureSubmitted [Transport κ ω σ] (r : Request κ σ ρ) (state : ω) :
    Result κ ω σ ρ (Except ViewError Unit) :=
  if r.stage.canSubmit then r.submit state else ⟨.ok (), r, state, []⟩

/-- The next row, or an error, or nothing at the end of the rows and ever after. -/
def next [Transport κ ω σ] [RowSource σ] (r : Request κ σ ρ) (state : ω) :
    Result κ ω σ ρ (Pull ρ) :=
  if r.stage.canPull then
    let ready := r.ensureSubmitted state
    match ready.answer with
    | .error error => ⟨some (.error error), ready.request, ready.state, ready.signals⟩
    | .ok () =>
        let (answer, after, signals) := ready.request.pull
        ⟨answer, after, ready.state, ready.signals ++ signals⟩
  else ⟨none, r, state, []⟩

/-- Asks for the next row at most `limit` times, and no more once there is none. -/
def takeRows [Transport κ ω σ] [RowSource σ] :
    Nat → Request κ σ ρ → ω → Result κ ω σ ρ (List (Except ViewError ρ))
  | 0, r, state => ⟨[], r, state, []⟩
  | limit + 1, r, state =>
      let first := r.next state
      match first.answer with
      | none => ⟨[], first.request, first.state, first.signals⟩
      | some row =>
          let more := takeRows limit first.request first.state
          ⟨row :: more.answer, more.request, more.state, first.signals ++ more.signals⟩

/-- Collects rows until there is none or one is an error, asking at most `limit` times. -/
def collectUpTo [Transport κ ω σ] [RowSource σ] :
    Nat → Request κ σ ρ → ω → Result κ ω σ ρ (Except ViewError (List ρ))
  | 0, r, state => ⟨.ok [], r, state, []⟩
  | limit + 1, r, state =>
      let first := r.next state
      match first.answer with
      | none => ⟨.ok [], first.request, first.state, first.signals⟩
      | some (.error error) => ⟨.error error, first.request, first.state, first.signals⟩
      | some (.ok row) =>
          let more := collectUpTo limit first.request first.state
          ⟨more.answer.map (row :: ·), more.request, more.state, first.signals ++ more.signals⟩

/-- How often a submitted request has to be asked until there is surely no row left. -/
def pullsLeft [FiniteSource σ] (r : Request κ σ ρ) : Nat :=
  match r.source with
  | some source => FiniteSource.remaining source + 1
  | none => 1

def drain [Transport κ ω σ] [FiniteSource σ] (r : Request κ σ ρ) (state : ω) :
    Result κ ω σ ρ (List (Except ViewError ρ)) :=
  let ready := r.ensureSubmitted state
  match ready.answer with
  | .error error => ⟨[.error error], ready.request, ready.state, ready.signals⟩
  | .ok () =>
      let rows := takeRows ready.request.pullsLeft ready.request ready.state
      { rows with signals := ready.signals ++ rows.signals }

/-- The rows that are left, at most `limit` of them; a request that is done refuses. -/
def rows [Transport κ ω σ] [FiniteSource σ] (r : Request κ σ ρ) (limit : Option Nat)
    (state : ω) : Result κ ω σ ρ (Except ViewError (List (Except ViewError ρ))) :=
  if r.stage.canPull then
    let taken := match limit with
      | some limit => takeRows limit r state
      | none => r.drain state
    { taken with answer := .ok taken.answer }
  else ⟨.error .alreadyQueried, r, state, []⟩

/-- All rows that are left, or the error that ends them; a request that is done refuses. -/
def execute [Transport κ ω σ] [FiniteSource σ] (r : Request κ σ ρ) (state : ω) :
    Result κ ω σ ρ (Except ViewError (List ρ)) :=
  if r.stage.canPull then
    let ready := r.ensureSubmitted state
    match ready.answer with
    | .error error => ⟨.error error, ready.request, ready.state, ready.signals⟩
    | .ok () =>
        let rows := collectUpTo ready.request.pullsLeft ready.request ready.state
        { rows with signals := ready.signals ++ rows.signals }
  else ⟨.error .alreadyQueried, r, state, []⟩

end Request

end DocViews
