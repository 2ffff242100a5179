import DocViews.Proofs.Metadata
import DocViews.Proofs.Request.Calls
import DocViews.Proofs.Request.Effect
import DocViews.Route

/-!
Transports and sources that keep records of their own, around any others. A transport notes what
it is handed, and the sources that it gives note what they are asked for. The signals of a request
tell of the same calls, in every run: none is told that was not made, and none made that is not
told. A source that a request has given up cannot be looked at any more, so it tells in its
trailer how many items it was asked for.
-/

namespace DocViews

def Call.asksItem : Call → Bool
  | .next _ => true
  | _ => false

/-- A source with a record of the calls on it. -/
structure Recorded (σ : Type) where
  source : σ
  record : List Call := []

namespace Recorded

variable {σ : Type}

/-- How many items have been asked for. -/
def count (s : Recorded σ) : UInt64 := .ofNat (s.record.countP Call.asksItem)

/-- The count as a trailer. -/
def counted (s : Recorded σ) : Bytes :=
  (Json.Value.object [("total_rows", .ofUInt64 s.count)]).bytes

instance [RowSource σ] : RowSource (Recorded σ) where
  next s :=
    let (pulled, after) := RowSource.next s.source
    (pulled, ⟨after, s.record ++ [.next pulled]⟩)
  trailer s := (.ok s.counted, { s with record := s.record ++ [.trailer] })

theorem read_counted (s : Recorded σ) : Metadata.read s.counted = .ok ⟨s.count, none⟩ :=
  Metadata.read_object (.cons (fun _ ends => Metadata.takes_totalRows (by simp)
    (Metadata.natural_ofUInt64 s.count ends)) .nil)

theorem record_next [RowSource σ] {s after : Recorded σ} {pulled : Pulled}
    (answered : RowSource.next s = (pulled, after)) :
    after.record = s.record ++ [.next pulled] := by
  cases answered
  rfl

end Recorded

/-- A transport whose submissions are noted. -/
structure Recording (κ : Type) where
  handle : κ

/-- What transports share, with the submissions that were noted. -/
structure Noted (ω : Type) where
  state : ω
  submitted : List (EncodedQuery × Duration) := []

instance {κ ω σ : Type} [Transport κ ω σ] : Transport (Recording κ) (Noted ω) (Recorded σ) where
  submit transport query timeout noted :=
    let sent := Transport.submit transport.handle query timeout noted.state
    ⟨sent.outcome.map (⟨·, []⟩), ⟨sent.state, noted.submitted ++ [(query, timeout)]⟩, sent.log⟩

section Submission

variable {κ ω σ : Type} [Transport κ ω σ] {transport : Recording κ} {query : EncodedQuery}
  {timeout : Duration} {noted after : Noted ω} {outcome : Except ViewError (Recorded σ)}
  {log : List LogEntry}

theorem Recording.submitted_submit
    (sent : Transport.submit transport query timeout noted = ⟨outcome, after, log⟩) :
    after.submitted = noted.submitted ++ [(query, timeout)] := by
  cases sent
  rfl

/-- A source begins with an empty record. -/
theorem Recording.record_submit {source : Recorded σ}
    (sent : Transport.submit transport query timeout noted = ⟨.ok source, after, log⟩) :
    source.record = [] := by
  simp only [Transport.submit, Submission.mk.injEq] at sent
  obtain ⟨given, -, -⟩ := sent
  cases inner : (Transport.submit transport.handle query timeout noted.state).outcome with
  | error error =>
      rw [inner] at given
      cases given
  | ok rows =>
      rw [inner] at given
      cases given
      rfl

end Submission

namespace Request

variable {κ ω σ ρ : Type}

/-- Whether a request shows this record of the calls on its source: it holds the source, or has
been told how many items were asked for. Without a source there is no call. -/
def Confirms (r : Request (Recording κ) (Recorded σ) ρ) (record : List Call) : Prop :=
  match r.stage with
  | .notStarted => record = []
  | .streaming => r.source.map (·.record) = some record
  | .done => ∀ metadata ∈ r.metadata?,
      metadata.totalRows = .ofNat (record.countP Call.asksItem)

section Confirmed

variable {r : Request (Recording κ) (Recorded σ) ρ} {record : List Call}

theorem Confirms.record_source (confirms : r.Confirms record) (h : r.Sound) {source : Recorded σ}
    (held : r.source = some source) : source.record = record := by
  cases stage : r.stage with
  | notStarted =>
      rw [(h.notStarted stage).2.1] at held
      cases held
  | streaming => simpa [Confirms, stage, held] using confirms
  | done =>
      rw [(h.done stage).2] at held
      cases held

theorem Confirms.totalRows (confirms : r.Confirms record) (h : r.Sound) {metadata : Metadata}
    (given : r.metadata? = some metadata) :
    metadata.totalRows = .ofNat (record.countP Call.asksItem) := by
  cases stage : r.stage with
  | notStarted =>
      rw [(h.notStarted stage).2.2.1] at given
      cases given
  | streaming =>
      rw [(h.streaming stage).2.2.1] at given
      cases given
  | done =>
      simp only [Confirms, stage] at confirms
      exact confirms metadata given

end Confirmed

/-- What was noted during a call, beside what its signals tell. -/
structure Recounts (r : Request (Recording κ) (Recorded σ) ρ) (noted : Noted ω)
    (signals : List Signal) (after : Request (Recording κ) (Recorded σ) ρ) (final : Noted ω) :
    Prop where
  query : after.query = r.query
  timeout : after.timeout = r.timeout
  submitted : final.submitted = noted.submitted ++
    ((Signal.calls signals).filter Call.onTransport).map fun _ => (r.query, r.timeout)
  confirms : ∀ record, r.Confirms record →
    after.Confirms (record ++ (Signal.calls signals).filter Call.onSource)
  trailer : after.metadata?.isSome = true ↔
    r.metadata?.isSome = true ∨ .trailer ∈ Signal.calls signals

namespace Recounts

variable {r between after : Request (Recording κ) (Recorded σ) ρ} {noted middle final : Noted ω}
  {signals further : List Signal}

theorem nothing (r : Request (Recording κ) (Recorded σ) ρ) (noted : Noted ω) :
    Recounts r noted [] r noted where
  query := rfl
  timeout := rfl
  submitted := (List.append_nil _).symm
  confirms record confirms := by simpa using confirms
  trailer := by simp

theorem andThen (first : Recounts r noted signals between middle)
    (second : Recounts between middle further after final) :
    Recounts r noted (signals ++ further) after final where
  query := second.query.trans first.query
  timeout := second.timeout.trans first.timeout
  submitted := by
    rw [second.submitted, first.submitted, first.query, first.timeout, Signal.calls_append,
      List.filter_append, List.map_append, List.append_assoc]
  confirms record confirms := by
    rw [Signal.calls_append, List.filter_append, ← List.append_assoc]
    exact second.confirms _ (first.confirms record confirms)
  trailer := by
    rw [second.trailer, first.trailer, Signal.calls_append, List.mem_append, or_assoc]

theorem submit [Transport κ ω σ] (h : r.Sound) (noted : Noted ω) :
    Effect.Of Recounts r noted (r.submit noted) := by
  have hcase := submit_case h noted
  generalize r.submit noted = result at hcase ⊢
  cases hcase with
  | refused started => exact ⟨rfl, rfl, (List.append_nil _).symm, by simp [span], by simp [span]⟩
  | @accepted handle source after log unsubmitted held sent =>
      obtain ⟨-, -, blank, -⟩ := h.notStarted unsubmitted
      refine ⟨rfl, rfl, ?_, ?_, ?_⟩
      · simpa [List.filter_cons, Call.onTransport] using Recording.submitted_submit sent
      · intro record confirms
        obtain rfl : record = [] := by simpa [Confirms, unsubmitted] using confirms
        have started : (r.begun source).Confirms [] :=
          congrArg some (Recording.record_submit sent)
        simpa [List.filter_cons, Call.onSource] using started
      · simp [begun, blank]
  | rejected unsubmitted held sent =>
      obtain ⟨-, -, blank, -⟩ := h.notStarted unsubmitted
      refine ⟨rfl, rfl, ?_, ?_, ?_⟩
      · simpa [List.filter_cons, Call.onTransport] using Recording.submitted_submit sent
      · intro record _ metadata given
        rw [closed, blank] at given
        cases given
      · simp [closed, blank]

theorem pull [RowSource σ] (h : r.Sound) (streaming : r.stage = .streaming) (noted : Noted ω) :
    Recounts r noted r.pull.2.2 r.pull.2.1 noted := by
  obtain ⟨-, -, blank, -⟩ := h.streaming streaming
  have hcase := pull_case h streaming
  generalize r.pull = result at hcase ⊢
  cases hcase with
  | @row source after payload row held answered decoded =>
      refine ⟨rfl, rfl, ?_, ?_, ?_⟩
      · simp [Call.onTransport]
      · intro record confirms
        have before : source.record = record := by
          simpa [Confirms, streaming, held] using confirms
        have further := Recorded.record_next answered
        rw [before] at further
        simpa [Confirms, streaming, List.filter_cons, Call.onSource] using further
      · simp
  | @failed source after pulled error held answered ending =>
      -- The trailer of such a source does not fail, so it was not asked for.
      have unasked : .trailer ∉ r.closingCalls pulled := by
        cases ending with
        | unreadableTrailer given rejected =>
            obtain rfl : after.counted = _ := Except.ok.inj given
            rw [after.read_counted] at rejected
            cases rejected
        | knownFaultAtEnd refused => cases refused
        | foreignFaultAtEnd refused => cases refused
        | _ => simp [closingCalls]
      have calls := ending.calls_closingSignals
      rw [closingSignals] at calls
      refine ⟨rfl, rfl, ?_, ?_, ?_⟩
      · rcases pulled with _ | (_ | _ | _) <;> simp [calls, closingCalls, Call.onTransport]
      · intro record _ metadata given
        cases given
      · simp [calls, unasked, closed, blank]
  | @finished source after metadata held answered ending =>
      have calls := ending.calls_closingSignals
      rw [closingSignals] at calls
      have told : metadata.totalRows = after.count := by
        cases ending with
        | trailer given read =>
            obtain rfl : after.counted = _ := Except.ok.inj given
            rw [after.read_counted] at read
            cases read
            rfl
      refine ⟨rfl, rfl, ?_, ?_, ?_⟩
      · simp [calls, closingCalls, Call.onTransport]
      · intro record confirms other given
        cases given
        have before : source.record = record := by
          simpa [Confirms, streaming, held] using confirms
        rw [told, Recorded.count, Recorded.record_next answered, before]
        simp [calls, closingCalls, List.filter_cons, List.countP_cons, Call.onSource, Call.asksItem]
      · simp [calls, closingCalls, closed]

theorem additive [Transport κ ω σ] [RowSource σ] :
    Effect.Additive (Recounts : Effect (Recording κ) (Noted ω) (Recorded σ) ρ) where
  nothing := nothing
  andThen := andThen
  submit := submit
  pull := pull

end Recounts

/-- The same origin, with records that are empty so far. -/
def Origin.recorded : Origin κ σ → Origin (Recording κ) (Recorded σ)
  | .transport handle limit => .transport ⟨handle⟩ limit
  | .source rows => .source ⟨rows, []⟩

/-- The same event where submissions are noted. What others change is not the record. -/
def Event.recorded : Event ω → Event (Noted ω)
  | .call u => .call u
  | .interference change => .interference fun noted => { noted with state := change noted.state }

theorem Origin.confirms_recorded [RowType ρ] (origin : Origin κ σ) (query : EncodedQuery) :
    (origin.recorded.request query : Request (Recording κ) (Recorded σ) ρ).Confirms [] := by
  cases origin with
  | transport handle limit => rfl
  | source rows => rfl

theorem Origin.query_request [RowType ρ] (origin : Origin κ σ) (query : EncodedQuery) :
    (origin.request query : Request κ σ ρ).query = query := by
  cases origin <;> rfl

theorem Origin.metadata_request [RowType ρ] (origin : Origin κ σ) (query : EncodedQuery) :
    (origin.request query : Request κ σ ρ).metadata? = none := by
  cases origin <;> rfl

section Runs

variable [Transport κ ω σ] [RowSource σ]

/-- In the order of the events, the records grow by what the signals tell. -/
theorem run_recounts {r : Request (Recording κ) (Recorded σ) ρ} (h : r.Sound)
    (events : List (Event ω)) (noted : Noted ω) :
    Effect.Of Recounts r noted (run (events.map Event.recorded) r noted) := by
  induction events generalizing r noted with
  | nil => exact .nothing r noted
  | cons event events ih =>
      cases event with
      | call u =>
          have first := Recounts.additive.use h u noted
          have sound := (use_shows h u noted).sound h
          exact first.andThen (ih sound (r.use u noted).state)
      | interference change =>
          have rest := ih h { noted with state := change noted.state }
          exact ⟨rest.query, rest.timeout, rest.submitted, rest.confirms, rest.trailer⟩

/-- Whatever is called on a request and whatever its transport and its source are: exactly
the submissions that its signals tell of were noted, each with the query and the timeout of the
request, and the source has the record of exactly the calls that the signals tell of. The trailer
was asked for if and only if it was read, and told how many items were asked for. -/
theorem run_recorded [RowType ρ] (origin : Origin κ σ) (query : EncodedQuery)
    (events : List (Event ω)) (state : ω) :
    let r : Request (Recording κ) (Recorded σ) ρ := origin.recorded.request query
    let given := run (events.map Event.recorded) r ⟨state, []⟩
    let calls := Signal.calls given.signals
    given.state.submitted =
        (calls.filter Call.onTransport).map (fun _ => (query, r.timeout)) ∧
      (∀ source, given.request.source = some source →
        source.record = calls.filter Call.onSource) ∧
      (∀ metadata, given.request.metadata? = some metadata →
        metadata.totalRows = .ofNat (calls.countP Call.asksItem)) ∧
      (given.request.metadata?.isSome = true ↔ .trailer ∈ calls) := by
  intro r given calls
  have start : r.Sound := origin.recorded.sound query
  have recounts : Recounts r ⟨state, []⟩ given.signals given.request given.state :=
    run_recounts start events ⟨state, []⟩
  have sound : given.request.Sound :=
    (run_shows start (events.map Event.recorded) ⟨state, []⟩).moves.sound start
  have confirms := recounts.confirms [] (origin.confirms_recorded query)
  have asked : (calls.filter Call.onSource).countP Call.asksItem = calls.countP Call.asksItem := by
    rw [List.countP_filter]
    congr 1
    funext call
    cases call <;> rfl
  refine ⟨?_, fun source held => confirms.record_source sound held, ?_, ?_⟩
  · rw [recounts.submitted, List.nil_append, origin.recorded.query_request query]
  · intro metadata held
    rw [confirms.totalRows sound held, List.nil_append, asked]
  · have blank : r.metadata? = none := origin.recorded.metadata_request query
    simpa [blank] using recounts.trailer

end Runs

/-- One row that only the serializer of its query can read. -/
def reversedRow : ScriptedSource :=
  ScriptedSource.row ⟨[], none⟩ ((Serializer.reversing "reversing").encode .null)

/-- The row, then the end: one submission was noted, with its timeout, though there were two
attempts, and the trailer tells of two pulls. -/
example :
    let query := EncodedQuery.empty.insert QueryField.serializer.name
      (.serializer (.reversing "reversing"))
    let origin : Origin Route ScriptedSource :=
      .transport (.script (.ok reversedRow)) (.ofSeconds 2)
    let r : Request (Recording Route) (Recorded ScriptedSource) Json.Value :=
      origin.recorded.request query
    let given := run ([.call (.rows 1), .call .submit, .call .next].map Event.recorded) r ⟨{}, []⟩
    given.state.submitted.map (·.2) = [.ofSeconds 2] ∧ given.request.rowsStreamed = 1 ∧
      given.request.metadata? = some ⟨2, none⟩ := by
  exact ⟨rfl, rfl, rfl⟩

end Request

end DocViews
