import DocViews.Request

/-!
What the operations of a request do, case by case. A submission is refused, accepted or
rejected. A row that decodes is handed out; any other answer of the source ends the stream,
in one of nine ways.
-/

namespace DocViews.Request

variable {κ ω σ ρ : Type}

/-- Whether a stream is over with this answer: it is something else than a row that decodes. -/
def EndsWith (r : Request κ σ ρ) (pulled : Pulled) : Prop :=
  ∀ payload row, pulled = .ok (.row payload) → r.decodeRow payload ≠ .ok row

/-- The calls that follow on the answer that ends a stream. -/
def closingCalls (r : Request κ σ ρ) : Pulled → List Call
  | .ok (.row payload) => [.decode r.serializer.name payload]
  | .ok .finished => [.trailer]
  | _ => []

/-- What can be observed of an answer of the source, before the stream fails with it. -/
def noted (r : Request κ σ ρ) : Pulled → List Signal
  | .error _ => []
  | .ok (.row payload) => [.call (.decode r.serializer.name payload)]
  | .ok (.marker m) => [.warn "in-stream view error" [
      ("code", Signal.number m.code), ("detail", m.message)]]
  | .ok .finished => [.call .trailer]

/-- The ways in which a stream ends with an answer of its source, and what it comes to. The
trailer is asked for when the source is in the state `after`. -/
inductive Ending [RowSource σ] (r : Request κ σ ρ) (after : σ) :
    Pulled → Except ViewError Metadata → Prop where
  | knownFault (error : ViewError) : Ending r after (.error (.known error)) (.error error)
  | foreignFault (message : String) :
      Ending r after (.error (.foreign message)) (.error (.internal message))
  | marker (m : Marker) : Ending r after (.ok (.marker m)) (.error (.ofMarker m))
  /-- The serializer rejects the payload. -/
  | unreadable {payload : Bytes} {e : Json.Error}
      (rejected : r.serializer.decode payload = .error e) :
      Ending r after (.ok (.row payload))
        (.error (.internal ("failed to decode view row: " ++ e.message)))
  /-- The payload is read, and holds no row. -/
  | misshapen {payload : Bytes} {value : Json.Value} {cause : Json.Cause}
      (read : r.serializer.decode payload = .ok value) (rejected : r.decode value = .error cause) :
      Ending r after (.ok (.row payload))
        (.error (.internal ("failed to decode view row: " ++ cause.describe)))
  | knownFaultAtEnd {error : ViewError}
      (refused : (RowSource.trailer after).1 = .error (.known error)) :
      Ending r after (.ok .finished) (.error error)
  | foreignFaultAtEnd {message : String}
      (refused : (RowSource.trailer after).1 = .error (.foreign message)) :
      Ending r after (.ok .finished) (.error (.internal message))
  | unreadableTrailer {payload : Bytes} {e : Json.Error}
      (given : (RowSource.trailer after).1 = .ok payload)
      (rejected : Metadata.read payload = .error e) :
      Ending r after (.ok .finished)
        (.error (.internal ("failed to decode view metadata: " ++ e.message)))
  /-- The natural end. -/
  | trailer {payload : Bytes} {metadata : Metadata}
      (given : (RowSource.trailer after).1 = .ok payload)
      (read : Metadata.read payload = .ok metadata) :
      Ending r after (.ok .finished) (.ok metadata)

/-- A request whose stream is over. -/
def closed (r : Request κ σ ρ) (metadata : Option Metadata) : Request κ σ ρ :=
  { r with stage := .done, transport := none, source := none, metadata? := metadata }

/-- The answer to the pull with which a stream ends. -/
def lastAnswer : Except ViewError Metadata → Pull ρ
  | .ok _ => none
  | .error error => some (.error error)

theorem decodeRow_of_unreadable {r : Request κ σ ρ} {payload : Bytes} {e : Json.Error}
    (rejected : r.serializer.decode payload = .error e) :
    r.decodeRow payload = .error (.internal ("failed to decode view row: " ++ e.message)) := by
  simp [decodeRow, rejected]

theorem decodeRow_of_misshapen {r : Request κ σ ρ} {payload : Bytes} {value : Json.Value}
    {cause : Json.Cause} (read : r.serializer.decode payload = .ok value)
    (rejected : r.decode value = .error cause) :
    r.decodeRow payload =
      .error (.internal ("failed to decode view row: " ++ cause.describe)) := by
  simp [decodeRow, read, rejected]

/-- A row is the value that the serializer reads and the request decodes. -/
theorem decodeRow_eq_ok {r : Request κ σ ρ} {payload : Bytes} {row : ρ} :
    r.decodeRow payload = .ok row ↔
      ∃ value, r.serializer.decode payload = .ok value ∧ r.decode value = .ok row := by
  constructor
  · intro h
    unfold decodeRow at h
    cases hread : r.serializer.decode payload with
    | error e => simp [hread] at h
    | ok value =>
        refine ⟨value, rfl, ?_⟩
        cases hrow : r.decode value with
        | error cause => simp [hread, hrow] at h
        | ok row' => simpa [hread, hrow] using h
  · rintro ⟨value, hread, hrow⟩
    simp [decodeRow, hread, hrow]

/-- What is noted of an answer shows the calls that follow on it. -/
theorem calls_noted (r : Request κ σ ρ) (error : ViewError) (pulled : Pulled) :
    Signal.calls (r.noted pulled ++ (r.fail error).2) = r.closingCalls pulled := by
  rcases pulled with fault | (payload | m | _) <;> rfl

theorem fallbacks_noted (r : Request κ σ ρ) (error : ViewError) (pulled : Pulled) :
    Signal.fallbacks (r.noted pulled ++ (r.fail error).2) = [] := by
  rcases pulled with fault | (payload | m | _) <;> rfl

/-- A failure closes a request without metadata. -/
theorem failPull_closed {r : Request κ σ ρ} (blank : r.metadata? = none) (error : ViewError)
    (before : List Signal) :
    r.failPull error before = (some (.error error), r.closed none, before ++ (r.fail error).2) := by
  simp [failPull, failWith, fail, closed, blank]

/-- What can be observed of the end of a stream, after the answer that ends it. -/
def closingSignals (r : Request κ σ ρ) (pulled : Pulled) : Except ViewError Metadata → List Signal
  | .error error => r.noted pulled ++ (r.fail error).2
  | .ok metadata => r.completion metadata

theorem fallbacks_closingSignals (r : Request κ σ ρ) (pulled : Pulled)
    (result : Except ViewError Metadata) :
    Signal.fallbacks (r.closingSignals pulled result) = [] := by
  cases result with
  | error error => exact fallbacks_noted r error pulled
  | ok metadata =>
      unfold closingSignals completion
      cases r.timed <;> rfl

section Pull

variable [RowSource σ] {r : Request κ σ ρ} {source after : σ} {pulled : Pulled}

theorem EndsWith.ending (ends : r.EndsWith pulled) (after : σ) :
    ∃ result, Ending r after pulled result := by
  rcases pulled with (error | message) | (payload | m | _)
  · exact ⟨_, .knownFault error⟩
  · exact ⟨_, .foreignFault message⟩
  · cases hread : r.serializer.decode payload with
    | error e => exact ⟨_, .unreadable hread⟩
    | ok value =>
        cases hrow : r.decode value with
        | error cause => exact ⟨_, .misshapen hread hrow⟩
        | ok row => exact absurd (decodeRow_eq_ok.mpr ⟨value, hread, hrow⟩) (ends payload row rfl)
  · exact ⟨_, .marker m⟩
  · rcases htrailer : (RowSource.trailer after).1 with (error | message) | payload
    · exact ⟨_, .knownFaultAtEnd htrailer⟩
    · exact ⟨_, .foreignFaultAtEnd htrailer⟩
    · cases hread : Metadata.read payload with
      | error e => exact ⟨_, .unreadableTrailer htrailer hread⟩
      | ok metadata => exact ⟨_, .trailer htrailer hread⟩

/-- No row that decodes is an ending. -/
theorem Ending.endsWith {result : Except ViewError Metadata}
    (ending : Ending r after pulled result) : r.EndsWith pulled := by
  intro payload row heq hrow
  obtain ⟨value, hread, hvalue⟩ := decodeRow_eq_ok.mp hrow
  cases ending with
  | unreadable rejected =>
      cases heq
      simp [hread] at rejected
  | misshapen read rejected =>
      cases heq
      rw [hread] at read
      cases read
      simp [hvalue] at rejected
  | _ => cases heq

/-- How a stream ends depends on the request by its serializer and the decoding of rows only. -/
theorem Ending.congr {other : Request κ σ ρ} {result : Except ViewError Metadata}
    (ending : Ending r after pulled result) (serializer : other.serializer = r.serializer)
    (decode : other.decode = r.decode) : Ending other after pulled result := by
  cases ending with
  | knownFault error => exact .knownFault error
  | foreignFault message => exact .foreignFault message
  | marker m => exact .marker m
  | unreadable rejected => exact .unreadable (serializer ▸ rejected)
  | misshapen read rejected => exact .misshapen (serializer ▸ read) (decode ▸ rejected)
  | knownFaultAtEnd refused => exact .knownFaultAtEnd refused
  | foreignFaultAtEnd refused => exact .foreignFaultAtEnd refused
  | unreadableTrailer given rejected => exact .unreadableTrailer given rejected
  | trailer given read => exact .trailer given read

/-- The answer, the decoding of its row and the trailer leave one way only. -/
theorem Ending.unique {result other : Except ViewError Metadata}
    (ending : Ending r after pulled result) (another : Ending r after pulled other) :
    result = other := by
  cases ending with
  | knownFault error => cases another; rfl
  | foreignFault message => cases another; rfl
  | marker m => cases another; rfl
  | unreadable rejected =>
      cases another with
      | unreadable rejected' =>
          rw [rejected] at rejected'
          cases rejected'
          rfl
      | misshapen read _ => simp [rejected] at read
  | misshapen read rejected =>
      cases another with
      | unreadable rejected' => simp [read] at rejected'
      | misshapen read' rejected' =>
          rw [read] at read'
          cases read'
          rw [rejected] at rejected'
          cases rejected'
          rfl
  | knownFaultAtEnd refused => cases another <;> simp_all
  | foreignFaultAtEnd refused => cases another <;> simp_all
  | unreadableTrailer given rejected => cases another <;> simp_all
  | trailer given read => cases another <;> simp_all

/-- Metadata comes of the natural end and a trailer that decodes, and of nothing else. -/
theorem Ending.metadata_iff {result : Except ViewError Metadata}
    (ending : Ending r after pulled result) :
    result.toOption.isSome ↔ pulled = .ok .finished ∧
      ∃ payload metadata, (RowSource.trailer after).1 = .ok payload ∧
        Metadata.read payload = .ok metadata := by
  cases ending with
  | unreadableTrailer given rejected => simp [Except.toOption, given, rejected]
  | trailer given read => simp [Except.toOption, given, read]
  | knownFaultAtEnd refused => simp [Except.toOption, refused]
  | foreignFaultAtEnd refused => simp [Except.toOption, refused]
  | _ => simp [Except.toOption]

theorem Ending.calls_closingSignals {result : Except ViewError Metadata}
    (ending : Ending r after pulled result) :
    Signal.calls (r.closingSignals pulled result) = r.closingCalls pulled := by
  cases result with
  | error error => exact calls_noted r error pulled
  | ok metadata =>
      -- Only the trailer gives metadata, and it is asked for once.
      cases ending
      unfold closingSignals completion
      cases r.timed <;> rfl

/-- Before the end of the rows, a stream ends by failing. -/
theorem receive_failing {result : Except ViewError Metadata} (held : Option σ)
    (ending : Ending r after pulled result) (early : pulled ≠ .ok .finished) :
    ∃ error, result = .error error ∧
      { r with source := held }.receive pulled =
        { r with source := held }.failPull error (r.noted pulled) := by
  cases ending with
  | knownFault error => exact ⟨error, rfl, rfl⟩
  | foreignFault message => exact ⟨.internal message, rfl, rfl⟩
  | marker m => exact ⟨.ofMarker m, rfl, rfl⟩
  | @unreadable payload e rejected =>
      have undecoded : { r with source := held }.decodeRow payload = _ :=
        decodeRow_of_unreadable rejected
      refine ⟨_, rfl, ?_⟩
      simp only [receive, undecoded]
      rfl
  | @misshapen payload value cause read rejected =>
      have undecoded : { r with source := held }.decodeRow payload = _ :=
        decodeRow_of_misshapen read rejected
      refine ⟨_, rfl, ?_⟩
      simp only [receive, undecoded]
      rfl
  | _ => exact absurd rfl early

/-- At the end of the rows, the trailer says how the stream ends. -/
theorem Ending.decodeTrailer {result : Except ViewError Metadata}
    (ending : Ending r after (.ok .finished) result) :
    Request.decodeTrailer (RowSource.trailer after).1 = result := by
  cases ending with
  | knownFaultAtEnd refused => simp [Request.decodeTrailer, refused, Fault.toError]
  | foreignFaultAtEnd refused => simp [Request.decodeTrailer, refused, Fault.toError]
  | unreadableTrailer given rejected => simp [Request.decodeTrailer, given, rejected]
  | trailer given read => simp [Request.decodeTrailer, given, read]

/-- At the end of the rows, the request asks for the trailer and closes as it says. -/
theorem receive_finished {result : Except ViewError Metadata} (released : r.transport = none)
    (blank : r.metadata? = none) (ending : Ending r after (.ok .finished) result) :
    { r with source := some after }.receive (.ok .finished) =
      (lastAnswer result, r.closed result.toOption, r.closingSignals (.ok .finished) result) := by
  have htrailer := ending.decodeTrailer
  cases result with
  | error error =>
      simp only [receive, complete, htrailer, failWith, fail]
      simp only [lastAnswer, closed, Except.toOption, blank]
      rfl
  | ok metadata =>
      simp only [receive, complete, htrailer]
      simp only [lastAnswer, closed, Except.toOption, released]
      rfl

/-- An answer that ends the stream closes the request, with the metadata if the end is the
natural one. -/
theorem receive_ending {result : Except ViewError Metadata} (released : r.transport = none)
    (blank : r.metadata? = none) (ending : Ending r after pulled result) :
    { r with source := some after }.receive pulled =
      (lastAnswer result, r.closed result.toOption, r.closingSignals pulled result) := by
  by_cases hend : pulled = .ok .finished
  · subst hend
    exact receive_finished released blank ending
  · obtain ⟨error, rfl, hreceive⟩ := receive_failing (some after) ending hend
    rw [hreceive]
    exact failPull_closed (r := { r with source := some after }) blank error (r.noted pulled)

/-- A row that decodes is handed out and counted, and the stream goes on. -/
theorem pull_row {payload : Bytes} {row : ρ} (held : r.source = some source)
    (answered : RowSource.next source = (.ok (.row payload), after))
    (decoded : r.decodeRow payload = .ok row) :
    r.pull = (some (.ok row), { r with source := some after, rowsStreamed := r.rowsStreamed + 1 },
      [.call (.next (.ok (.row payload))), .call (.decode r.serializer.name payload),
        .count .rowsStreamed]) := by
  have decoded' : { r with source := some after }.decodeRow payload = .ok row := decoded
  simp only [pull, held, answered, receive, decoded']
  rfl

/-- Anything else closes the request. -/
theorem pull_closed {result : Except ViewError Metadata} (held : r.source = some source)
    (released : r.transport = none) (blank : r.metadata? = none)
    (answered : RowSource.next source = (pulled, after)) (ending : Ending r after pulled result) :
    r.pull = (lastAnswer result, r.closed result.toOption,
      .call (.next pulled) :: r.closingSignals pulled result) := by
  simp only [pull, held, answered, receive_ending released blank ending]

end Pull

section Submit

variable [Transport κ ω σ] {r : Request κ σ ρ} {state : ω} {handle : κ}

theorem submit_refused (started : r.stage ≠ .notStarted) :
    r.submit state = ⟨.error .alreadyQueried, r, state, [r.span]⟩ := by
  have hsubmit : ¬ r.stage.canSubmit := by simpa [Stage.canSubmit] using started
  simp only [submit, if_neg hsubmit]

theorem submit_through (unsubmitted : r.stage = .notStarted) (held : r.transport = some handle) :
    r.submit state =
      let sent := { r with transport := none }.submitThrough handle state
      { sent with signals := r.span :: sent.signals } := by
  have hsubmit : r.stage.canSubmit := by simp [unsubmitted, Stage.canSubmit]
  simp only [submit, if_pos hsubmit, held]

/-- The transport accepts the query: the request goes on with the source it was given. -/
theorem submit_accepted {source : σ} (unsubmitted : r.stage = .notStarted)
    (held : r.transport = some handle)
    (accepted : (Transport.submit handle r.query r.timeout state).outcome = .ok source) :
    ∃ signals, r.submit state = ⟨.ok (), { r with
        transport := none, source := some source, stage := .streaming, timed := true },
        (Transport.submit handle r.query r.timeout state).state, signals⟩ ∧
      Signal.calls signals = [.submit] ∧ Signal.fallbacks signals = [] := by
  rw [submit_through unsubmitted held]
  simp only [submitThrough, accepted]
  exact ⟨_, rfl, by simp [span], by simp [span]⟩

theorem submit_rejected {error : ViewError} (unsubmitted : r.stage = .notStarted)
    (held : r.transport = some handle)
    (rejected : (Transport.submit handle r.query r.timeout state).outcome = .error error) :
    ∃ signals, r.submit state = ⟨.error error, r.closed r.metadata?,
        (Transport.submit handle r.query r.timeout state).state, signals⟩ ∧
      Signal.calls signals = [.submit] ∧ Signal.fallbacks signals = [] := by
  rw [submit_through unsubmitted held]
  simp only [submitThrough, rejected, failWith, fail]
  exact ⟨_, rfl, by simp [span], by simp [span]⟩

theorem submit_streaming (accepted : (r.submit state).answer = .ok ()) :
    (r.submit state).request.stage = .streaming := by
  by_cases unsubmitted : r.stage = .notStarted
  · cases held : r.transport with
    | none => simp [submit, held, unsubmitted, Stage.canSubmit] at accepted
    | some handle =>
        cases hsent : (Transport.submit handle r.query r.timeout state).outcome with
        | ok source =>
            obtain ⟨signals, hsubmit, -⟩ := submit_accepted unsubmitted held hsent
            rw [hsubmit]
        | error error =>
            obtain ⟨signals, hsubmit, -⟩ := submit_rejected unsubmitted held hsent
            rw [hsubmit] at accepted
            cases accepted
  · rw [submit_refused unsubmitted] at accepted
    cases accepted

theorem ensureSubmitted_streaming (live : r.stage.canPull)
    (accepted : (r.ensureSubmitted state).answer = .ok ()) :
    (r.ensureSubmitted state).request.stage = .streaming := by
  by_cases hsubmit : r.stage.canSubmit
  · simp only [ensureSubmitted, if_pos hsubmit] at accepted ⊢
    exact submit_streaming accepted
  · simp only [ensureSubmitted, if_neg hsubmit]
    cases hstage : r.stage with
    | notStarted => simp [hstage, Stage.canSubmit] at hsubmit
    | streaming => rfl
    | done => exact absurd hstage (Stage.canPull_iff.mp live)

end Submit

section Next

variable [Transport κ ω σ] [RowSource σ] {r : Request κ σ ρ} {state : ω}

/-- A request that is done has no further row, and stays as it is. -/
theorem next_done (done : r.stage = .done) : r.next state = ⟨none, r, state, []⟩ := by
  have hpull : ¬ r.stage.canPull := by simp [done, Stage.canPull_iff]
  simp only [next, if_neg hpull]

theorem next_streaming (streaming : r.stage = .streaming) :
    r.next state = ⟨r.pull.1, r.pull.2.1, state, r.pull.2.2⟩ := by
  have hpull : r.stage.canPull := Stage.canPull_iff.mpr (by simp [streaming])
  have hsubmit : ¬ r.stage.canSubmit := by simp [streaming, Stage.canSubmit]
  simp only [next, if_pos hpull, ensureSubmitted, if_neg hsubmit]
  rfl

/-- A request that has not started submits itself before its first row. -/
theorem next_notStarted (unsubmitted : r.stage = .notStarted) :
    r.next state =
      match (r.submit state).answer with
      | .error error =>
          ⟨some (.error error), (r.submit state).request, (r.submit state).state,
            (r.submit state).signals⟩
      | .ok () =>
          ⟨(r.submit state).request.pull.1, (r.submit state).request.pull.2.1,
            (r.submit state).state,
            (r.submit state).signals ++ (r.submit state).request.pull.2.2⟩ := by
  have hpull : r.stage.canPull := Stage.canPull_iff.mpr (by simp [unsubmitted])
  have hsubmit : r.stage.canSubmit := by simp [unsubmitted, Stage.canSubmit]
  have hready : r.ensureSubmitted state = r.submit state := if_pos hsubmit
  rw [← hready]
  exact if_pos hpull

/-- Submitting first changes nothing about the next row: the request does so by itself. -/
theorem next_of_ensureSubmitted (live : r.stage.canPull)
    (accepted : (r.ensureSubmitted state).answer = .ok ()) :
    r.next state =
      let first := (r.ensureSubmitted state).request.next (r.ensureSubmitted state).state
      { first with signals := (r.ensureSubmitted state).signals ++ first.signals } := by
  simp only [next_streaming (ensureSubmitted_streaming live accepted)]
  simp only [next, if_pos live, accepted]

theorem next_of_ensureSubmitted_error {error : ViewError} (live : r.stage.canPull)
    (rejected : (r.ensureSubmitted state).answer = .error error) :
    r.next state =
      ⟨some (.error error), (r.ensureSubmitted state).request, (r.ensureSubmitted state).state,
        (r.ensureSubmitted state).signals⟩ := by
  simp only [next, if_pos live, rejected]

end Next

end DocViews.Request
