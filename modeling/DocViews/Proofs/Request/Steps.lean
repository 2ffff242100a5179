import DocViews.Proofs.Request.Run

/-!
The two steps that every call on a request is made of: the submission, and one pull. What a
request holds goes with its stage, and each step keeps it so; each step has its cases, with
everything that can be observed of it.
-/

namespace DocViews.Request

variable {κ ω σ ρ : Type}

/-- What the fields of a request say together. -/
structure Sound (r : Request κ σ ρ) : Prop where
  notStarted : r.stage = .notStarted →
    (∃ handle, r.transport = some handle) ∧ r.source = none ∧ r.metadata? = none ∧
      r.rowsStreamed = 0
  streaming : r.stage = .streaming →
    (∃ rows, r.source = some rows) ∧ r.transport = none ∧ r.metadata? = none ∧ r.timed = true
  done : r.stage = .done → r.transport = none ∧ r.source = none

theorem Origin.sound [RowType ρ] (query : EncodedQuery) (origin : Origin κ σ) :
    (origin.request query : Request κ σ ρ).Sound := by
  cases origin with
  | transport handle limit =>
      exact ⟨fun _ => ⟨⟨handle, rfl⟩, rfl, rfl, rfl⟩, nofun, nofun⟩
  | source rows =>
      exact ⟨nofun, fun _ => ⟨⟨rows, rfl⟩, rfl, rfl, rfl⟩, nofun⟩

theorem Move.sound [RowSource σ] {r after : Request κ σ ρ} {calls : List Call}
    (move : Move r after calls) (h : r.Sound) : after.Sound := by
  cases move with
  | refused => exact h
  | accepted source unsubmitted =>
      obtain ⟨-, -, hmetadata, -⟩ := h.notStarted unsubmitted
      exact ⟨nofun, fun _ => ⟨⟨source, rfl⟩, rfl, hmetadata, rfl⟩, nofun⟩
  | rejected unsubmitted => exact ⟨nofun, nofun, fun _ => ⟨rfl, rfl⟩⟩
  | @row source after payload row streaming held answered decoded =>
      obtain ⟨-, htransport, hmetadata, htimed⟩ := h.streaming streaming
      refine ⟨fun hstage => ?_, fun _ => ⟨⟨after, rfl⟩, htransport, hmetadata, htimed⟩,
        fun hstage => ?_⟩
      · rw [streaming] at hstage
        cases hstage
      · rw [streaming] at hstage
        cases hstage
  | ended metadata streaming held answered ends =>
      exact ⟨nofun, nofun, fun _ => ⟨rfl, rfl⟩⟩

theorem Move.stage_le [RowSource σ] {r after : Request κ σ ρ} {calls : List Call}
    (move : Move r after calls) : r.stage ≤ after.stage := by
  cases move with
  | refused => exact Stage.le_refl _
  | accepted source unsubmitted =>
      rw [unsubmitted]
      exact Stage.notStarted_le _
  | rejected unsubmitted => exact Stage.le_done _
  | row streaming held answered decoded => exact Stage.le_refl _
  | ended metadata streaming held answered ends => exact Stage.le_done _

theorem Moves.sound [RowSource σ] {r after : Request κ σ ρ} {calls : List Call}
    (moves : Moves r after calls) (h : r.Sound) : after.Sound := by
  induction moves with
  | none => exact h
  | more first _ ih => exact ih (first.sound h)

theorem Moves.stage_le [RowSource σ] {r after : Request κ σ ρ} {calls : List Call}
    (moves : Moves r after calls) : r.stage ≤ after.stage := by
  induction moves with
  | none => exact Stage.le_refl _
  | more first _ ih => exact Stage.le_trans first.stage_le ih

theorem Moves.trans [RowSource σ] {r between after : Request κ σ ρ} {calls further : List Call}
    (moves : Moves r between calls) (others : Moves between after further) :
    Moves r after (calls ++ further) := by
  induction moves with
  | none => exact others
  | more first _ ih =>
      rw [List.append_assoc]
      exact .more first (ih others)

theorem Move.moves [RowSource σ] {r after : Request κ σ ρ} {calls : List Call}
    (move : Move r after calls) : Moves r after calls := by
  simpa using Moves.more move .none

/-- What signals tell of a call that moves a request: the moves, and no fallback. -/
structure Shows [RowSource σ] (r after : Request κ σ ρ) (signals : List Signal) : Prop where
  moves : Moves r after (Signal.calls signals)
  quiet : Signal.fallbacks signals = []

theorem Shows.none [RowSource σ] (r : Request κ σ ρ) : Shows r r [] := ⟨.none, rfl⟩

theorem Shows.sound [RowSource σ] {r after : Request κ σ ρ} {signals : List Signal}
    (shows : Shows r after signals) (h : r.Sound) : after.Sound := shows.moves.sound h

theorem Shows.trans [RowSource σ] {r between after : Request κ σ ρ}
    {signals further : List Signal} (first : Shows r between signals)
    (second : Shows between after further) : Shows r after (signals ++ further) := by
  constructor
  · rw [Signal.calls_append]
    exact first.moves.trans second.moves
  · rw [Signal.fallbacks_append, first.quiet, second.quiet]
    rfl

/-- The request once its query was accepted. -/
def begun (r : Request κ σ ρ) (source : σ) : Request κ σ ρ :=
  { r with transport := none, source := some source, stage := .streaming, timed := true }

/-- What can be observed of a submission before its outcome. -/
def sending (r : Request κ σ ρ) (log : List LogEntry) : List Signal :=
  r.span :: .count .queriesSubmitted :: .call .submit :: log.map .log

@[simp]
theorem calls_sending (r : Request κ σ ρ) (log : List LogEntry) :
    Signal.calls (r.sending log) = [.submit] := by
  simp [sending, span]

@[simp]
theorem fallbacks_sending (r : Request κ σ ρ) (log : List LogEntry) :
    Signal.fallbacks (r.sending log) = [] := by
  simp [sending, span]

@[simp]
theorem calls_fail (r : Request κ σ ρ) (error : ViewError) :
    Signal.calls (r.fail error).2 = [] := rfl

@[simp]
theorem fallbacks_fail (r : Request κ σ ρ) (error : ViewError) :
    Signal.fallbacks (r.fail error).2 = [] := rfl

/-- The ways in which a submission goes. -/
inductive SubmitCase [Transport κ ω σ] (r : Request κ σ ρ) (state : ω) :
    Result κ ω σ ρ (Except ViewError Unit) → Prop where
  | refused (started : r.stage ≠ .notStarted) :
      SubmitCase r state ⟨.error .alreadyQueried, r, state, [r.span]⟩
  | accepted {handle : κ} {source : σ} {after : ω} {log : List LogEntry}
      (unsubmitted : r.stage = .notStarted) (held : r.transport = some handle)
      (sent : Transport.submit handle r.query r.timeout state = ⟨.ok source, after, log⟩) :
      SubmitCase r state ⟨.ok (), r.begun source, after,
        r.sending log ++ [.debug "view query submitted" []]⟩
  | rejected {handle : κ} {error : ViewError} {after : ω} {log : List LogEntry}
      (unsubmitted : r.stage = .notStarted) (held : r.transport = some handle)
      (sent : Transport.submit handle r.query r.timeout state = ⟨.error error, after, log⟩) :
      SubmitCase r state ⟨.error error, r.closed r.metadata?, after,
        r.sending log ++ (r.fail error).2⟩

/-- The ways in which a pull goes. -/
inductive PullCase [RowSource σ] (r : Request κ σ ρ) : Outcome κ σ ρ (Pull ρ) → Prop where
  | row {source after : σ} {payload : Bytes} {row : ρ} (held : r.source = some source)
      (answered : RowSource.next source = (.ok (.row payload), after))
      (decoded : r.decodeRow payload = .ok row) :
      PullCase r (some (.ok row),
        { r with source := some after, rowsStreamed := r.rowsStreamed + 1 },
        [.call (.next (.ok (.row payload))), .call (.decode r.serializer.name payload),
          .count .rowsStreamed])
  | failed {source after : σ} {pulled : Pulled} {error : ViewError} (held : r.source = some source)
      (answered : RowSource.next source = (pulled, after))
      (ending : Ending r after pulled (.error error)) :
      PullCase r (some (.error error), r.closed none,
        .call (.next pulled) :: (r.noted pulled ++ (r.fail error).2))
  | finished {source after : σ} {metadata : Metadata} (held : r.source = some source)
      (answered : RowSource.next source = (.ok .finished, after))
      (ending : Ending r after (.ok .finished) (.ok metadata)) :
      PullCase r (none, r.closed (some metadata),
        .call (.next (.ok .finished)) :: r.completion metadata)

section Cases

variable {r : Request κ σ ρ}

theorem submit_case [Transport κ ω σ] (h : r.Sound) (state : ω) :
    SubmitCase r state (r.submit state) := by
  by_cases unsubmitted : r.stage = .notStarted
  · obtain ⟨⟨handle, held⟩, -⟩ := h.notStarted unsubmitted
    obtain ⟨outcome, after, log, sent⟩ : ∃ outcome after log,
        Transport.submit handle r.query r.timeout state = ⟨outcome, after, log⟩ := ⟨_, _, _, rfl⟩
    rw [submit_through unsubmitted held]
    simp only [submitThrough, sent]
    cases outcome with
    | ok source => exact .accepted unsubmitted held sent
    | error error => exact .rejected unsubmitted held sent
  · rw [submit_refused unsubmitted]
    exact .refused unsubmitted

variable [RowSource σ]

theorem pull_case (h : r.Sound) (streaming : r.stage = .streaming) : PullCase r r.pull := by
  obtain ⟨⟨source, held⟩, released, blank, -⟩ := h.streaming streaming
  obtain ⟨pulled, after, answered⟩ : ∃ pulled after, RowSource.next source = (pulled, after) :=
    ⟨_, _, rfl⟩
  by_cases ends : r.EndsWith pulled
  · obtain ⟨result, ending⟩ := ends.ending after
    rw [pull_closed held released blank answered ending]
    cases result with
    | error error => exact .failed held answered ending
    | ok metadata =>
        cases ending with
        | trailer given read => exact .finished held answered (.trailer given read)
  · obtain ⟨payload, row, rfl, decoded⟩ : ∃ payload row,
        pulled = .ok (.row payload) ∧ r.decodeRow payload = .ok row := by
      simpa [EndsWith] using ends
    rw [pull_row held answered decoded]
    exact .row held answered decoded

end Cases

section Steps

variable [Transport κ ω σ] [RowSource σ] {r : Request κ σ ρ}

theorem submit_shows (h : r.Sound) (state : ω) :
    Shows r (r.submit state).request (r.submit state).signals := by
  have hcase := submit_case h state
  generalize r.submit state = result at hcase ⊢
  cases hcase with
  | refused started => exact ⟨.none, rfl⟩
  | @accepted handle source after log unsubmitted held sent =>
      have hcalls : Signal.calls (r.sending log ++ [.debug "view query submitted" []]) =
          [.submit] := by simp
      refine ⟨?_, by simp⟩
      rw [hcalls]
      exact (Move.accepted source unsubmitted).moves
  | @rejected handle error after log unsubmitted held sent =>
      have hcalls : Signal.calls (r.sending log ++ (r.fail error).2) = [.submit] := by simp
      refine ⟨?_, by simp⟩
      rw [hcalls]
      exact (Move.rejected unsubmitted).moves

theorem pull_shows (h : r.Sound) (streaming : r.stage = .streaming) :
    Shows r r.pull.2.1 r.pull.2.2 := by
  have hcase := pull_case h streaming
  generalize r.pull = result at hcase ⊢
  cases hcase with
  | row held answered decoded => exact ⟨(Move.row streaming held answered decoded).moves, rfl⟩
  | @failed source after pulled error held answered ending =>
      have hcalls : Signal.calls (r.noted pulled ++ (r.fail error).2) = r.closingCalls pulled :=
        ending.calls_closingSignals
      refine ⟨?_, r.fallbacks_closingSignals pulled (.error error)⟩
      rw [Signal.calls_call, hcalls]
      exact (Move.ended none streaming held answered ending.endsWith).moves
  | @finished source after metadata held answered ending =>
      have hcalls : Signal.calls (r.completion metadata) = r.closingCalls (.ok .finished) :=
        ending.calls_closingSignals
      refine ⟨?_, r.fallbacks_closingSignals (.ok .finished) (.ok metadata)⟩
      rw [Signal.calls_call, hcalls]
      exact (Move.ended (some metadata) streaming held answered ending.endsWith).moves

end Steps

end DocViews.Request
