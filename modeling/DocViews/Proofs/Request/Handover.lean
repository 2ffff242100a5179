import DocViews.Proofs.Request.Effect
import DocViews.Proofs.Request.Calls

/-!
The handing over of a query to the transport, which happens once if at all, and what is
reported meanwhile. What a request writes to the log goes with what it counts; whatever else
stands in the log was written by the transport that took the query.
-/

namespace DocViews

/-- Whether a log entry is an event of this level with this message. -/
def LogEntry.isEvent (level : Level) (message : String) : LogEntry → Bool
  | .event l m _ => l == level && m == message
  | .span _ _ => false

/-- Whether a log entry tells that a stream has failed. -/
def LogEntry.tellsFailure : LogEntry → Bool := isEvent .warn "view stream failed"

/-- Whether a log entry tells that a stream has come to its natural end. -/
def LogEntry.tellsCompletion : LogEntry → Bool := isEvent .debug "view stream complete"

namespace Request

variable {κ ω σ ρ : Type}

/-- What the signals tell of so many submissions, with what the transport has written. -/
structure Reported (submissions : Nat) (written : List LogEntry) (signals : List Signal) :
    Prop where
  counted : Signal.total .queriesSubmitted signals = submissions
  called : (Signal.calls signals).countP Call.onTransport = submissions
  failures : (Signal.entries signals).countP LogEntry.tellsFailure =
    Signal.total .streamErrors signals + written.countP LogEntry.tellsFailure
  completions : (Signal.entries signals).countP LogEntry.tellsCompletion =
    Signal.total .streamsCompleted signals + written.countP LogEntry.tellsCompletion
  /-- A duration is recorded for each stream that comes to its natural end. -/
  durations : Signal.total .streamDurations signals = Signal.total .streamsCompleted signals

namespace Reported

theorem nothing : Reported 0 [] [] := ⟨rfl, rfl, rfl, rfl, rfl⟩

theorem append {n m : Nat} {written more : List LogEntry} {signals further : List Signal}
    (first : Reported n written signals) (second : Reported m more further) :
    Reported (n + m) (written ++ more) (signals ++ further) := by
  obtain ⟨counted, called, failures, completions, durations⟩ := first
  obtain ⟨counted', called', failures', completions', durations'⟩ := second
  constructor
  all_goals
    simp only [Signal.total_append, Signal.calls_append, Signal.entries_append,
      List.countP_append]
    omega

end Reported

section Signals

variable {r : Request κ σ ρ}

theorem reported_sending (r : Request κ σ ρ) (log : List LogEntry) :
    Reported 1 log (r.sending log) := by
  constructor <;> simp [sending, span, Call.onTransport, LogEntry.tellsFailure,
    LogEntry.tellsCompletion, LogEntry.isEvent]

theorem reported_fail (r : Request κ σ ρ) (error : ViewError) :
    Reported 0 [] (r.fail error).2 := by
  constructor <;> simp [fail, LogEntry.tellsFailure, LogEntry.tellsCompletion,
    LogEntry.isEvent, LogEntry.warn]

theorem reported_noted (r : Request κ σ ρ) (pulled : Pulled) :
    Reported 0 [] (.call (.next pulled) :: r.noted pulled) := by
  rcases pulled with fault | (payload | m | _) <;> constructor <;>
    simp [noted, Call.onTransport, LogEntry.tellsFailure, LogEntry.tellsCompletion,
      LogEntry.isEvent, LogEntry.warn]

theorem reported_completion (timed : r.timed = true) (metadata : Metadata) :
    Reported 0 [] (r.completion metadata) := by
  constructor <;> simp [completion, timed, Call.onTransport, LogEntry.tellsFailure,
    LogEntry.tellsCompletion, LogEntry.isEvent, LogEntry.debug]

end Signals

/-- How a call hands over the query: it leaves a request as it is, finds the query submitted
earlier, or submits it now. -/
inductive Handover [Transport κ ω σ] : Effect κ ω σ ρ where
  | waiting (r : Request κ σ ρ) (state : ω) : Handover r state [] r state
  | started {r after : Request κ σ ρ} {signals : List Signal} (before : r.stage ≠ .notStarted)
      (further : after.stage ≠ .notStarted) (reported : Reported 0 [] signals) (state : ω) :
      Handover r state signals after state
  | sent {r after : Request κ σ ρ} {state final : ω} {signals : List Signal} {handle : κ}
      {outcome : Except ViewError σ} {log : List LogEntry} (unsubmitted : r.stage = .notStarted)
      (held : r.transport = some handle)
      (sent : Transport.submit handle r.query r.timeout state = ⟨outcome, final, log⟩)
      (further : after.stage ≠ .notStarted) (reported : Reported 1 log signals) :
      Handover r state signals after final

namespace Handover

section Steps

variable [Transport κ ω σ] {r between after : Request κ σ ρ} {state middle final : ω}
  {signals further : List Signal}

/-- After one submission there is no other. -/
theorem andThen (first : Handover r state signals between middle)
    (second : Handover between middle further after final) :
    Handover r state (signals ++ further) after final := by
  cases first with
  | waiting => exact second
  | started before started reported =>
      cases second with
      | waiting => exact .started before started (reported.append .nothing) _
      | started _ last more => exact .started before last (reported.append more) _
      | sent unsubmitted => exact absurd unsubmitted started
  | @sent _ _ _ _ _ _ _ log unsubmitted held sent started reported =>
      have appended : ∀ {more : List Signal}, Reported 0 [] more →
          Reported 1 log (signals ++ more) := by
        intro more also
        simpa using reported.append also
      cases second with
      | waiting => exact .sent unsubmitted held sent started (appended .nothing)
      | started _ last more => exact .sent unsubmitted held sent last (appended more)
      | sent again => exact absurd again started

theorem submit (h : r.Sound) (state : ω) : Effect.Of Handover r state (r.submit state) := by
  have hcase := submit_case h state
  generalize r.submit state = result at hcase ⊢
  cases hcase with
  | refused started =>
      have reported : Reported 0 [] [r.span] := ⟨rfl, rfl, rfl, rfl, rfl⟩
      exact .started started started reported state
  | @accepted handle source after log unsubmitted held sent =>
      have streaming : (r.begun source).stage ≠ .notStarted := nofun
      have noted : Reported 0 [] [.debug "view query submitted" []] := ⟨rfl, rfl, rfl, rfl, rfl⟩
      have reported := (r.reported_sending log).append noted
      rw [List.append_nil] at reported
      exact .sent unsubmitted held sent streaming reported
  | @rejected handle error after log unsubmitted held sent =>
      have done : (r.closed r.metadata?).stage ≠ .notStarted := nofun
      have reported := (r.reported_sending log).append (r.reported_fail error)
      rw [List.append_nil] at reported
      exact .sent unsubmitted held sent done reported

theorem pull [RowSource σ] (h : r.Sound) (streaming : r.stage = .streaming) (state : ω) :
    Handover r state r.pull.2.2 r.pull.2.1 state := by
  have started : r.stage ≠ .notStarted := by simp [streaming]
  obtain ⟨-, -, -, timed⟩ := h.streaming streaming
  have hcase := pull_case h streaming
  generalize r.pull = result at hcase ⊢
  cases hcase with
  | @row source after payload row held answered decoded =>
      have reported : Reported 0 [] [.call (.next (.ok (.row payload))),
          .call (.decode r.serializer.name payload), .count .rowsStreamed] :=
        ⟨rfl, rfl, rfl, rfl, rfl⟩
      refine .started started ?_ reported state
      exact started
  | @failed source after pulled error held answered ending =>
      have done : (r.closed none).stage ≠ .notStarted := nofun
      exact .started started done ((r.reported_noted pulled).append (r.reported_fail error)) state
  | @finished source after metadata held answered ending =>
      have done : (r.closed (some metadata)).stage ≠ .notStarted := nofun
      have asked : Reported 0 [] [.call (.next (.ok .finished))] := ⟨rfl, rfl, rfl, rfl, rfl⟩
      exact .started started done (asked.append (reported_completion timed metadata)) state

end Steps

/-- Every call hands over the query in one of the three ways. -/
theorem additive [Transport κ ω σ] [RowSource σ] :
    Effect.Additive (Handover : Effect κ ω σ ρ) where
  nothing := .waiting
  andThen := andThen
  submit := submit
  pull := pull

end Handover

section Written

variable [Transport κ ω σ] {r after : Request κ σ ρ} {state final : ω} {signals : List Signal}

/-- What the transport writes to the log when a call hands over the query of a request. -/
def written (r after : Request κ σ ρ) (state : ω) : List LogEntry :=
  match r.transport with
  | some handle =>
      if r.stage = .notStarted ∧ after.stage ≠ .notStarted then
        (Transport.submit handle r.query r.timeout state).log
      else []
  | none => []

/-- Whether something in the shared state counts the submissions to all transports. -/
def Meters (κ : Type) [Transport κ ω σ] (meter : ω → Nat) : Prop :=
  ∀ (handle : κ) query timeout state,
    meter (Transport.submit handle query timeout state).state = meter state + 1

/-- Whether a log entry is what some transport writes when it takes some query. -/
def WrittenBy (κ : Type) [Transport κ ω σ] (entry : LogEntry) : Prop :=
  ∃ (handle : κ) (query : EncodedQuery) (timeout : Duration) (state : ω),
    entry ∈ (Transport.submit handle query timeout state).log

theorem writtenBy_of_mem {entry : LogEntry} (h : entry ∈ r.written after state) :
    WrittenBy κ entry := by
  unfold written at h
  cases held : r.transport with
  | none => simp [held] at h
  | some handle =>
      simp only [held] at h
      split at h
      · exact ⟨handle, r.query, r.timeout, state, h⟩
      · cases h

theorem written_eq_nil (h : r.stage = .notStarted → after.stage = .notStarted) :
    r.written after state = [] := by
  unfold written
  cases r.transport with
  | none => rfl
  | some handle => exact if_neg fun ⟨unsubmitted, started⟩ => started (h unsubmitted)

/-- What is reported of a call goes with what the transport has seen of it. -/
theorem Handover.reported (handover : Handover r state signals after final) :
    ∃ n, Reported n (r.written after state) signals ∧
      ∀ meter, Meters κ meter → meter final = meter state + n := by
  cases handover with
  | waiting =>
      rw [written_eq_nil id]
      exact ⟨0, .nothing, fun _ _ => rfl⟩
  | started before further reported =>
      rw [written_eq_nil fun unsubmitted => absurd unsubmitted before]
      exact ⟨0, reported, fun _ _ => rfl⟩
  | @sent _ _ _ _ _ handle _ _ unsubmitted held sent further reported =>
      refine ⟨1, ?_, fun meter meters => ?_⟩
      · simpa only [written, held, sent, if_pos (And.intro unsubmitted further)] using reported
      · simpa only [sent] using meters handle r.query r.timeout state

end Written

end Request

end DocViews
