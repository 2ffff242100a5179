import DocViews.Proofs.Request.Representation
import DocViews.Route

/-!
Where the errors come from that a request answers with, and which of them count as reported
inside the stream. All that are made from markers do. Errors that a transport or a source
raises as errors of ours are passed on as they are, and then the kind is all that counts, be
there a marker or not.
-/

namespace DocViews

/-- Where an error of a request comes from. -/
inductive Provenance where
  /-- A marker, pulled from the source. -/
  | marker (m : Marker)
  /-- The transport has rejected the submission. -/
  | rejection (error : ViewError)
  /-- The source has failed instead of yielding an item. -/
  | fault (f : Fault)
  /-- A row does not decode. -/
  | row (payload : Bytes)
  /-- The source has failed instead of giving its trailer. -/
  | noTrailer (f : Fault)
  /-- The trailer does not decode. -/
  | trailer (payload : Bytes)
  /-- The request was submitted before. -/
  | misuse

/-- The error that somebody else has raised as one of ours. -/
def Provenance.passedOn? : Provenance → Option ViewError
  | .rejection error | .fault (.known error) | .noTrailer (.known error) => some error
  | _ => none

theorem ViewError.isInStream_ofMarker (m : Marker) : (ofMarker m).isInStream = true := by
  unfold ofMarker
  split <;> rfl

namespace Request

variable {κ ω σ ρ : Type}

/-- The error that a submission or a pull has answered with. -/
def Answer.error? : Answer ρ → Option ViewError
  | .submitted (.error error) | .next (some (.error error)) => some error
  | _ => none

/-- Which source a pull asks, and what is called before it: a request that has not started
submits itself. -/
inductive Asks [Transport κ ω σ] (r : Request κ σ ρ) (state : ω) : σ → List Call → Prop where
  | streaming {source : σ} (streaming : r.stage = .streaming) (held : r.source = some source) :
      Asks r state source []
  | submitted {handle : κ} {source : σ} (unsubmitted : r.stage = .notStarted)
      (held : r.transport = some handle)
      (accepted : (Transport.submit handle r.query r.timeout state).outcome = .ok source) :
      Asks r state source [.submit]

/-- What happens when a request comes to an error of this provenance, and whom it calls. -/
inductive Raises [Transport κ ω σ] [RowSource σ] (r : Request κ σ ρ) (state : ω) :
    Provenance → ViewError → List Call → Prop where
  | misuse (started : r.stage ≠ .notStarted) : Raises r state .misuse .alreadyQueried []
  | rejection {handle : κ} {error : ViewError} (unsubmitted : r.stage = .notStarted)
      (held : r.transport = some handle)
      (rejected : (Transport.submit handle r.query r.timeout state).outcome = .error error) :
      Raises r state (.rejection error) error [.submit]
  | marker {source after : σ} {calls : List Call} {m : Marker} (asks : Asks r state source calls)
      (answered : RowSource.next source = (.ok (.marker m), after)) :
      Raises r state (.marker m) (.ofMarker m) (calls ++ [.next (.ok (.marker m))])
  | fault {source after : σ} {calls : List Call} {f : Fault} (asks : Asks r state source calls)
      (answered : RowSource.next source = (.error f, after)) :
      Raises r state (.fault f) f.toError (calls ++ [.next (.error f)])
  | row {source after : σ} {calls : List Call} {payload : Bytes} {detail : String}
      (asks : Asks r state source calls)
      (answered : RowSource.next source = (.ok (.row payload), after))
      (undecoded : r.decodeRow payload =
        .error (.internal ("failed to decode view row: " ++ detail))) :
      Raises r state (.row payload) (.internal ("failed to decode view row: " ++ detail))
        (calls ++ [.next (.ok (.row payload)), .decode r.serializer.name payload])
  | noTrailer {source after : σ} {calls : List Call} {f : Fault} (asks : Asks r state source calls)
      (answered : RowSource.next source = (.ok .finished, after))
      (refused : (RowSource.trailer after).1 = .error f) :
      Raises r state (.noTrailer f) f.toError (calls ++ [.next (.ok .finished), .trailer])
  | trailer {source after : σ} {calls : List Call} {payload : Bytes} {e : Json.Error}
      (asks : Asks r state source calls)
      (answered : RowSource.next source = (.ok .finished, after))
      (given : (RowSource.trailer after).1 = .ok payload)
      (rejected : Metadata.read payload = .error e) :
      Raises r state (.trailer payload)
        (.internal ("failed to decode view metadata: " ++ e.message))
        (calls ++ [.next (.ok .finished), .trailer])

section Steps

variable [Transport κ ω σ] [RowSource σ] {r : Request κ σ ρ} {state : ω} {error : ViewError}

/-- Each way in which a stream fails is of one provenance. -/
theorem Ending.raises {source after : σ} {pulled : Pulled} {calls : List Call}
    (asks : Asks r state source calls) (answered : RowSource.next source = (pulled, after))
    (ending : Ending r after pulled (.error error)) :
    ∃ p, Raises r state p error (calls ++ .next pulled :: r.closingCalls pulled) := by
  cases ending with
  | knownFault error => exact ⟨_, .fault asks answered⟩
  | foreignFault message => exact ⟨_, .fault asks answered⟩
  | marker m => exact ⟨_, .marker asks answered⟩
  | unreadable rejected => exact ⟨_, .row asks answered (decodeRow_of_unreadable rejected)⟩
  | misshapen read rejected => exact ⟨_, .row asks answered (decodeRow_of_misshapen read rejected)⟩
  | knownFaultAtEnd refused => exact ⟨_, .noTrailer asks answered refused⟩
  | foreignFaultAtEnd refused => exact ⟨_, .noTrailer asks answered refused⟩
  | unreadableTrailer given rejected => exact ⟨_, .trailer asks answered given rejected⟩

/-- A pull that fails, of a request that streams the rows it was given. -/
theorem pull_raises (r : Request κ σ ρ) (state : ω) {streaming : Request κ σ ρ}
    {calls : List Call} (h : streaming.Sound)
    (started : streaming.stage = .streaming) (serializer : r.serializer = streaming.serializer)
    (decode : r.decode = streaming.decode)
    (asks : ∀ source, streaming.source = some source → Asks r state source calls)
    (failed : streaming.pull.1 = some (.error error)) :
    ∃ p, Raises r state p error (calls ++ Signal.calls streaming.pull.2.2) := by
  have hcase := pull_case h started
  generalize streaming.pull = result at failed hcase
  cases hcase with
  | row held answered decoded => cases failed
  | finished held answered ending => cases failed
  | @failed source after pulled error held answered ending =>
      cases failed
      obtain ⟨p, raises⟩ :=
        (ending.congr serializer decode).raises (asks source held) answered
      have hclosing : r.closingCalls pulled = streaming.closingCalls pulled := by
        unfold closingCalls
        rw [serializer]
      refine ⟨p, ?_⟩
      rw [Signal.calls_call, calls_noted, ← hclosing]
      exact raises

theorem submit_raises (h : r.Sound) (failed : (r.submit state).answer = .error error) :
    ∃ p, Raises r state p error (Signal.calls (r.submit state).signals) := by
  have hcase := submit_case h state
  generalize r.submit state = result at failed hcase
  cases hcase with
  | refused started =>
      cases failed
      exact ⟨_, .misuse started⟩
  | accepted unsubmitted held sent => cases failed
  | @rejected handle error after log unsubmitted held sent =>
      cases failed
      have hcalls : Signal.calls (r.sending log ++ (r.fail error).2) = [.submit] := by simp
      refine ⟨.rejection error, ?_⟩
      rw [hcalls]
      exact .rejection unsubmitted held (by rw [sent])

theorem next_raises (h : r.Sound) (failed : (r.next state).answer = some (.error error)) :
    ∃ p, Raises r state p error (Signal.calls (r.next state).signals) := by
  cases hstage : r.stage with
  | notStarted =>
      have hcase := submit_case h state
      have sound := (submit_shows h state).sound h
      have rejects : ∀ error, (r.submit state).answer = .error error →
          ∃ p, Raises r state p error (Signal.calls (r.submit state).signals) :=
        fun error => submit_raises h
      rw [next_notStarted hstage] at failed ⊢
      generalize r.submit state = result at failed hcase sound rejects ⊢
      cases hcase with
      | refused started => exact absurd hstage started
      | rejected unsubmitted held sent =>
          cases failed
          exact rejects _ rfl
      | @accepted handle source after log unsubmitted held sent =>
          have hcalls : Signal.calls (r.sending log ++ [.debug "view query submitted" []]) =
              [.submit] := by simp
          have asks : ∀ given, (r.begun source).source = some given →
              Asks r state given [.submit] := by
            rintro given hgiven
            cases hgiven
            exact .submitted unsubmitted held (by rw [sent])
          obtain ⟨p, raises⟩ := pull_raises r state sound rfl rfl rfl asks failed
          refine ⟨p, ?_⟩
          rw [Signal.calls_append, hcalls]
          exact raises
  | streaming =>
      rw [next_streaming hstage] at failed ⊢
      exact pull_raises r state h hstage rfl rfl (fun source held => .streaming hstage held) failed
  | done =>
      rw [next_done hstage] at failed
      cases failed

/-- An error counts as reported inside the stream if it was made from a marker, and else if it
was passed on and is of such a kind. -/
theorem Raises.isInStream_iff {p : Provenance} {calls : List Call}
    (raises : Raises r state p error calls) :
    error.isInStream = true ↔
      (∃ m, p = .marker m) ∨ ∃ passed, p.passedOn? = some passed ∧ passed.isInStream = true := by
  cases raises with
  | misuse started => simp [ViewError.isInStream, Provenance.passedOn?]
  | rejection unsubmitted held rejected => simp [Provenance.passedOn?]
  | marker asks answered => simp [ViewError.isInStream_ofMarker]
  | @fault source after calls f asks answered =>
      cases f <;> simp [Fault.toError, ViewError.isInStream, Provenance.passedOn?]
  | row asks answered undecoded => simp [ViewError.isInStream, Provenance.passedOn?]
  | @noTrailer source after calls f asks answered refused =>
      cases f <;> simp [Fault.toError, ViewError.isInStream, Provenance.passedOn?]
  | trailer asks answered given rejected => simp [ViewError.isInStream, Provenance.passedOn?]

/-- Which provenance it is can be told from the calls: only a marker leaves a marker behind. -/
theorem Raises.marker_iff {p : Provenance} {calls : List Call}
    (raises : Raises r state p error calls) (m : Marker) :
    p = .marker m ↔ .next (.ok (.marker m)) ∈ calls := by
  have quiet : ∀ {source : σ} {calls : List Call}, Asks r state source calls →
      .next (.ok (.marker m)) ∉ calls := by
    rintro source calls (_ | _) <;> simp
  cases raises with
  | misuse started => simp
  | rejection unsubmitted held rejected => simp
  | marker asks answered => simp [quiet asks, eq_comm]
  | fault asks answered => simp [quiet asks]
  | row asks answered undecoded => simp [quiet asks]
  | noTrailer asks answered refused => simp [quiet asks]
  | trailer asks answered given rejected => simp [quiet asks]

/-- Every error that a submission or a pull answers with, in whatever state a run has left the
request, has a provenance, which goes with the calls that were made. The error counts as
reported inside the stream exactly if it was made from a marker, but for errors that the
transport or the source has raised as errors of ours: these are passed on unchanged, and count
by their kind. -/
theorem isInStream_provenance [RowType ρ] (origin : Origin κ σ) (query : EncodedQuery)
    (events : List (Event ω)) (start : ω) (u : Use) (error : ViewError) :
    let reached := run events (origin.request query : Request κ σ ρ) start
    let given := reached.request.use u reached.state
    given.answer.error? = some error →
      (∃ p, Raises reached.request reached.state p error (Signal.calls given.signals)) ∧
      ∀ p, Raises reached.request reached.state p error (Signal.calls given.signals) →
        (∀ m, p = .marker m ↔ .next (.ok (.marker m)) ∈ Signal.calls given.signals) ∧
        (error.isInStream = true ↔ (∃ m, p = .marker m) ∨
          ∃ passed, p.passedOn? = some passed ∧ passed.isInStream = true) := by
  intro reached given failed
  have start' : (origin.request query : Request κ σ ρ).Sound := origin.sound query
  have h : reached.request.Sound := (run_shows start' events start).sound start'
  refine ⟨?_, fun p raises => ⟨raises.marker_iff, raises.isInStream_iff⟩⟩
  cases u with
  | submit =>
      cases hanswer : (reached.request.submit reached.state).answer with
      | ok _ => simp [given, use, hanswer, Answer.error?] at failed
      | error e =>
          simp only [given, use, hanswer, Answer.error?, Option.some.injEq] at failed
          rw [← failed]
          exact submit_raises h hanswer
  | next =>
      rcases hanswer : (reached.request.next reached.state).answer with _ | (e | row)
      · simp [given, use, hanswer, Answer.error?] at failed
      · simp only [given, use, hanswer, Answer.error?, Option.some.injEq] at failed
        rw [← failed]
        exact next_raises h hanswer
      · simp [given, use, hanswer, Answer.error?] at failed
  | rows polls => simp [given, use, Answer.error?] at failed
  | execute pulls => simp [given, use, Answer.error?] at failed

end Steps

section Sample

/-- A request whose submission comes to this. -/
def routed (outcome : Except ViewError ScriptedSource) : Request Route ScriptedSource Json.Value :=
  .new (.script outcome) .empty ⟨1⟩

/-- A marker that says to come back later. -/
def laterMarker : Marker := ⟨7, "later", none⟩

theorem isInStream_provenance_marker :
    let given := (routed (.ok ⟨[.ok (.marker laterMarker)], none⟩)).use .next {}
    given.answer.error? = some (.temporaryFailure "later") ∧
      (ViewError.temporaryFailure "later").isInStream = true := by
  intro given
  have failed : given.answer.error? = some (.temporaryFailure "later") := rfl
  refine ⟨failed, ?_⟩
  let origin : Origin Route ScriptedSource :=
    .transport (.script (.ok ⟨[.ok (.marker laterMarker)], none⟩)) ⟨1⟩
  obtain ⟨⟨p, raises⟩, classified⟩ :=
    isInStream_provenance (ρ := Json.Value) origin .empty [] ({} : Store) .next _ failed
  obtain ⟨marker, inStream⟩ := classified p raises
  have pulled : .next (.ok (.marker laterMarker)) ∈ Signal.calls given.signals :=
    List.mem_cons_of_mem _ List.mem_cons_self
  exact inStream.mpr (.inl ⟨laterMarker, (marker laterMarker).mpr pulled⟩)

/-- A submission that the transport rejects as a server would: no marker was pulled, nor any
item, and the error counts as reported inside the stream. -/
theorem isInStream_without_marker :
    let given := (routed (.error (.serviceNotAvailable "no view nodes"))).use .next {}
    given.answer.error? = some (.serviceNotAvailable "no view nodes") ∧
      (∀ m, .next (.ok (.marker m)) ∉ Signal.calls given.signals) ∧
      (ViewError.serviceNotAvailable "no view nodes").isInStream = true := by
  intro given
  have hcalls : Signal.calls given.signals = [.submit] := rfl
  refine ⟨rfl, ?_, rfl⟩
  intro m
  simp [hcalls]

end Sample

end Request

end DocViews
