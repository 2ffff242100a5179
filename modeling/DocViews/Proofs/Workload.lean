import DocViews.Proofs.Request.Handover
import DocViews.Route

/-!
Workloads: any number of requests, with rows of any type, on transports that share a state,
used in any order while others change that state. All that is counted and logged is accounted
for by what has become of the requests.
-/

namespace DocViews

namespace Request

variable {κ ω σ ρ : Type}

/-- How often the stream of a request has come to its natural end. -/
def completions (r : Request κ σ ρ) : Nat :=
  if r.stage = .done ∧ r.metadata?.isSome then 1 else 0

/-- How often the stream of a request has failed, its submission included. -/
def failures (r : Request κ σ ρ) : Nat :=
  if r.stage = .done ∧ r.metadata? = none then 1 else 0

theorem not_ended {r : Request κ σ ρ} (going : r.stage ≠ .done) :
    r.completions = 0 ∧ r.failures = 0 :=
  ⟨if_neg fun h => going h.1, if_neg fun h => going h.1⟩

theorem ended_well (r : Request κ σ ρ) (metadata : Metadata) :
    (r.closed (some metadata)).completions = 1 ∧ (r.closed (some metadata)).failures = 0 :=
  ⟨rfl, rfl⟩

theorem ended_badly (r : Request κ σ ρ) :
    (r.closed none).completions = 0 ∧ (r.closed none).failures = 1 :=
  ⟨rfl, rfl⟩

/-- Nothing is counted of an answer that ends a stream. -/
theorem total_noted (r : Request κ σ ρ) (counter : Counter) (pulled : Pulled) :
    Signal.total counter (r.noted pulled) = 0 := by
  rcases pulled with fault | (payload | m | _) <;> rfl

/-- What a call counts goes with what becomes of the request. -/
structure Accounts (r : Request κ σ ρ) (_ : ω) (signals : List Signal) (after : Request κ σ ρ)
    (_ : ω) : Prop where
  rows : after.rowsStreamed = r.rowsStreamed + Signal.total .rowsStreamed signals
  completions : after.completions = r.completions + Signal.total .streamsCompleted signals
  failures : after.failures = r.failures + Signal.total .streamErrors signals

namespace Accounts

variable {r between after : Request κ σ ρ} {state middle final : ω}
  {signals further : List Signal}

theorem andThen (first : Accounts r state signals between middle)
    (second : Accounts between middle further after final) :
    Accounts r state (signals ++ further) after final := by
  obtain ⟨rows, completions, failures⟩ := first
  obtain ⟨rows', completions', failures'⟩ := second
  constructor
  all_goals
    rw [Signal.total_append]
    omega

theorem submit [Transport κ ω σ] (h : r.Sound) (state : ω) :
    Effect.Of Accounts r state (r.submit state) := by
  have hcase := submit_case h state
  generalize r.submit state = result at hcase ⊢
  cases hcase with
  | refused started => exact ⟨rfl, rfl, rfl⟩
  | @accepted handle source after log unsubmitted held sent =>
      have waiting : r.stage ≠ .done := by simp [unsubmitted]
      have streaming : (r.begun source).stage ≠ .done := nofun
      obtain ⟨completions, failures⟩ := not_ended waiting
      obtain ⟨completions', failures'⟩ := not_ended streaming
      constructor
      · simp [begun, sending, span]
      · simp [completions, completions', sending, span]
      · simp [failures, failures', sending, span]
  | rejected unsubmitted held sent =>
      obtain ⟨-, -, blank, -⟩ := h.notStarted unsubmitted
      have waiting : r.stage ≠ .done := by simp [unsubmitted]
      obtain ⟨completions, failures⟩ := not_ended waiting
      obtain ⟨completions', failures'⟩ := r.ended_badly
      rw [blank]
      constructor
      · simp [closed, sending, span, fail]
      · simp [completions, completions', sending, span, fail]
      · simp [failures, failures', sending, span, fail]

theorem pull [RowSource σ] (h : r.Sound) (streaming : r.stage = .streaming) (state : ω) :
    Accounts r state r.pull.2.2 r.pull.2.1 state := by
  have going : r.stage ≠ .done := by simp [streaming]
  obtain ⟨completions, failures⟩ := not_ended going
  obtain ⟨-, -, -, timed⟩ := h.streaming streaming
  have hcase := pull_case h streaming
  generalize r.pull = result at hcase ⊢
  cases hcase with
  | row held answered decoded => exact ⟨rfl, rfl, rfl⟩
  | @failed source after pulled error held answered ending =>
      obtain ⟨completions', failures'⟩ := r.ended_badly
      constructor
      · simp [closed, fail, total_noted]
      · simp [completions, completions', fail, total_noted]
      · simp [failures, failures', fail, total_noted]
  | @finished source after metadata held answered ending =>
      obtain ⟨completions', failures'⟩ := r.ended_well metadata
      constructor
      · simp [closed, completion, timed]
      · simp [completions, completions', completion, timed]
      · simp [failures, failures', completion, timed]

theorem additive [Transport κ ω σ] [RowSource σ] :
    Effect.Additive (Accounts : Effect κ ω σ ρ) where
  nothing _ _ := ⟨rfl, rfl, rfl⟩
  andThen := andThen
  submit := submit
  pull := pull

end Accounts

end Request

/-- A request, with everything that was observed of it. -/
structure Participant (κ σ : Type) where
  ρ : Type
  request : Request κ σ ρ
  signals : List Signal

/-- Requests on transports that share a state. -/
structure Workload (κ ω σ : Type) where
  participants : List (Participant κ σ)
  state : ω
  /-- Everything that was observed of all of them, in its order. -/
  signals : List Signal
  /-- What the transports have written to the log. -/
  written : List LogEntry

/-- What was counted of a request goes with what has become of it. -/
structure Participant.Balanced {κ σ : Type} (p : Participant κ σ) : Prop where
  sound : p.request.Sound
  rows : p.request.rowsStreamed = Signal.total .rowsStreamed p.signals
  completions : p.request.completions = Signal.total .streamsCompleted p.signals
  failures : p.request.failures = Signal.total .streamErrors p.signals

theorem Participant.Balanced.call {κ ω σ : Type} [RowSource σ] {p : Participant κ σ}
    {after : Request κ σ p.ρ} {state final : ω} {signals : List Signal} (h : p.Balanced)
    (accounts : p.request.Accounts state signals after final)
    (shows : p.request.Shows after signals) :
    Participant.Balanced ⟨p.ρ, after, p.signals ++ signals⟩ := by
  obtain ⟨sound, rows, completions, failures⟩ := h
  obtain ⟨rows', completions', failures'⟩ := accounts
  refine ⟨shows.sound sound, ?_, ?_, ?_⟩
  all_goals
    simp only [Signal.total_append]
    omega

namespace Workload

variable {κ ω σ : Type}

inductive Action (κ ω σ : Type) where
  /-- Another request takes part. -/
  | create (ρ : Type) (rows : RowType ρ) (origin : Request.Origin κ σ) (query : EncodedQuery)
  | call (index : Nat) (u : Request.Use)
  /-- Others change what the transports share. -/
  | interference (change : ω → ω)

section Run

variable [Transport κ ω σ] [RowSource σ]

def step (w : Workload κ ω σ) : Action κ ω σ → Workload κ ω σ
  | .create ρ _ origin query =>
      { w with participants := w.participants ++ [⟨ρ, origin.request query, []⟩] }
  | .call index u =>
      match w.participants[index]? with
      | none => w
      | some p =>
          let result := p.request.use u w.state
          { participants :=
              w.participants.set index ⟨p.ρ, result.request, p.signals ++ result.signals⟩
            state := result.state
            signals := w.signals ++ result.signals
            written := w.written ++ p.request.written result.request w.state }
  | .interference change => { w with state := change w.state }

/-- What the actions come to, beginning without a request. -/
def run (start : ω) (actions : List (Action κ ω σ)) : Workload κ ω σ :=
  actions.foldl step ⟨[], start, [], []⟩

end Run

/-- What each participant has of something, taken together. -/
def sumOf (amount : Participant κ σ → Nat) : List (Participant κ σ) → Nat
  | [] => 0
  | p :: rest => amount p + sumOf amount rest

section Sums

variable {amount other : Participant κ σ → Nat} {participants : List (Participant κ σ)}

theorem sumOf_append_singleton (amount : Participant κ σ → Nat)
    (participants : List (Participant κ σ)) (p : Participant κ σ) :
    sumOf amount (participants ++ [p]) = sumOf amount participants + amount p := by
  induction participants with
  | nil => exact Nat.add_comm ..
  | cons first rest ih => simp only [List.cons_append, sumOf, ih, Nat.add_assoc]

theorem sumOf_congr (same : ∀ p ∈ participants, amount p = other p) :
    sumOf amount participants = sumOf other participants := by
  induction participants with
  | nil => rfl
  | cons first rest ih =>
      have more := ih fun p hp => same p (List.mem_cons_of_mem _ hp)
      rw [sumOf, sumOf, more, same first List.mem_cons_self]

/-- What one participant gains, all of them have gained. -/
theorem sumOf_set {index : Nat} {old new : Participant κ σ} {gain : Nat}
    (there : participants[index]? = some old) (gains : amount new = amount old + gain) :
    sumOf amount (participants.set index new) = sumOf amount participants + gain := by
  induction participants generalizing index with
  | nil => cases there
  | cons first rest ih =>
      cases index with
      | zero =>
          obtain rfl : first = old := by simpa using there
          rw [List.set_cons_zero, sumOf, sumOf, gains]
          omega
      | succ index =>
          have there' : rest[index]? = some old := by simpa using there
          rw [List.set_cons_succ, sumOf, sumOf, ih there']
          omega

end Sums

/-- What holds of all that is counted, whatever the actions. -/
structure Balanced [Transport κ ω σ] (w : Workload κ ω σ) : Prop where
  requests : ∀ p ∈ w.participants, p.Balanced
  contributions : ∀ counter, Signal.total counter w.signals =
    sumOf (fun p => Signal.total counter p.signals) w.participants
  reported : ∃ n, Request.Reported n w.written w.signals
  authors : ∀ entry ∈ w.written, Request.WrittenBy κ entry

section Balance

variable [Transport κ ω σ] [RowSource σ] {w : Workload κ ω σ}

theorem step_create (h : w.Balanced) (ρ : Type) (rows : RowType ρ) (origin : Request.Origin κ σ)
    (query : EncodedQuery) : (w.step (.create ρ rows origin query)).Balanced where
  requests p hp := by
    rcases List.mem_append.mp hp with hp | hp
    · exact h.requests p hp
    · obtain rfl := List.mem_singleton.mp hp
      refine ⟨origin.sound query, ?_, ?_, ?_⟩
      all_goals cases origin <;> rfl
  contributions counter := by
    rw [step, h.contributions counter, sumOf_append_singleton]
    rfl
  reported := h.reported
  authors := h.authors

theorem step_call (h : w.Balanced) (index : Nat) (u : Request.Use) :
    (w.step (.call index u)).Balanced := by
  cases there : w.participants[index]? with
  | none => simpa only [step, there] using h
  | some p =>
      have hp := h.requests p (List.mem_of_getElem? there)
      have accounts := Request.Accounts.additive.use hp.sound u w.state
      have handover := Request.Handover.additive.use hp.sound u w.state
      obtain ⟨m, reported, -⟩ := handover.reported
      obtain ⟨n, before⟩ := h.reported
      simp only [step, there]
      refine ⟨fun q hq => ?_, fun counter => ?_, ⟨n + m, before.append reported⟩,
        fun entry hentry => ?_⟩
      · rcases List.mem_or_eq_of_mem_set hq with hq | rfl
        · exact h.requests q hq
        · exact hp.call accounts (Request.use_shows hp.sound u w.state)
      · rw [Signal.total_append, h.contributions counter]
        exact (sumOf_set there (Signal.total_append ..)).symm
      · rcases List.mem_append.mp hentry with hentry | hentry
        · exact h.authors entry hentry
        · exact Request.writtenBy_of_mem hentry

/-- Whatever is done, the balance is kept. -/
theorem step_balanced (h : w.Balanced) (action : Action κ ω σ) : (w.step action).Balanced := by
  cases action with
  | create ρ rows origin query => exact step_create h ρ rows origin query
  | call index u => exact step_call h index u
  | interference change => exact ⟨h.requests, h.contributions, h.reported, h.authors⟩

/-- A meter in the shared state and the counter of submissions move together. -/
theorem step_meter {meter : ω → Nat} (h : w.Balanced) (meters : Request.Meters κ meter)
    {action : Action κ ω σ}
    (kept : ∀ change, action = .interference change → ∀ state, meter (change state) = meter state) :
    meter (w.step action).state + Signal.total .queriesSubmitted w.signals =
      meter w.state + Signal.total .queriesSubmitted (w.step action).signals := by
  cases action with
  | create ρ rows origin query => rfl
  | call index u =>
      cases there : w.participants[index]? with
      | none => simp only [step, there]
      | some p =>
          have hp := h.requests p (List.mem_of_getElem? there)
          have handover := Request.Handover.additive.use hp.sound u w.state
          obtain ⟨n, reported, metered⟩ := handover.reported
          have hmeter := metered meter meters
          have hcounted := reported.counted
          simp only [step, there, Signal.total_append]
          omega
  | interference change =>
      have hmeter := kept change rfl w.state
      simp only [step, hmeter]

/-- The actions leave the balance as it is, and every meter moves with the counter. -/
theorem foldl_balanced (h : w.Balanced) (actions : List (Action κ ω σ)) :
    (actions.foldl step w).Balanced ∧ ∀ meter, Request.Meters κ meter →
      (∀ change, .interference change ∈ actions → ∀ state, meter (change state) = meter state) →
      meter (actions.foldl step w).state + Signal.total .queriesSubmitted w.signals =
        meter w.state + Signal.total .queriesSubmitted (actions.foldl step w).signals := by
  induction actions generalizing w with
  | nil => exact ⟨h, fun _ _ _ => rfl⟩
  | cons action actions ih =>
      obtain ⟨balanced, metered⟩ := ih (step_balanced h action)
      refine ⟨balanced, fun meter meters kept => ?_⟩
      have first := step_meter h meters fun change same => kept change (same ▸ List.mem_cons_self)
      have rest := metered meter meters fun change hchange =>
        kept change (List.mem_cons_of_mem _ hchange)
      rw [List.foldl_cons]
      omega

/-- Everything is accounted for, whatever is done with however many requests. The counter of
submissions tells how often the requests have called on the transports, which any meter among
the transports confirms. The other counters are the sums of what the requests have contributed:
the rows that each has streamed, and, of a request that is done and of no other, one completion
if it has metadata, else one error. A duration is recorded for each completion. The log tells
of each error and of each completion once, but for what the transports themselves have written. -/
theorem run_accounts (start : ω) (actions : List (Action κ ω σ)) :
    let w := run start actions
    Signal.total .queriesSubmitted w.signals =
        (Signal.calls w.signals).countP Call.onTransport ∧
      (∀ meter, Request.Meters κ meter →
        (∀ change, .interference change ∈ actions → ∀ state, meter (change state) = meter state) →
        meter w.state = meter start + Signal.total .queriesSubmitted w.signals) ∧
      (∀ counter, Signal.total counter w.signals =
        sumOf (fun p => Signal.total counter p.signals) w.participants) ∧
      Signal.total .rowsStreamed w.signals =
        sumOf (fun p => p.request.rowsStreamed) w.participants ∧
      (∀ p ∈ w.participants,
        Signal.total .streamsCompleted p.signals =
            (if p.request.stage = .done ∧ p.request.metadata?.isSome then 1 else 0) ∧
          Signal.total .streamErrors p.signals =
            (if p.request.stage = .done ∧ p.request.metadata? = none then 1 else 0)) ∧
      Signal.total .streamDurations w.signals = Signal.total .streamsCompleted w.signals ∧
      (Signal.entries w.signals).countP LogEntry.tellsFailure =
        Signal.total .streamErrors w.signals + w.written.countP LogEntry.tellsFailure ∧
      (Signal.entries w.signals).countP LogEntry.tellsCompletion =
        Signal.total .streamsCompleted w.signals +
          w.written.countP LogEntry.tellsCompletion ∧
      ∀ entry ∈ w.written, Request.WrittenBy κ entry := by
  intro w
  have initially : (⟨[], start, [], []⟩ : Workload κ ω σ).Balanced :=
    ⟨nofun, fun _ => rfl, ⟨0, .nothing⟩, nofun⟩
  obtain ⟨⟨requests, contributions, ⟨n, reported⟩, authors⟩, metered⟩ :=
    foldl_balanced initially actions
  refine ⟨reported.counted.trans reported.called.symm, metered, contributions, ?_, fun p hp => ?_,
    reported.durations, reported.failures, reported.completions, authors⟩
  · have rows : ∀ p ∈ w.participants,
        Signal.total .rowsStreamed p.signals = p.request.rowsStreamed :=
      fun p hp => (requests p hp).rows.symm
    exact (contributions .rowsStreamed).trans (sumOf_congr rows)
  · exact ⟨(requests p hp).completions.symm, (requests p hp).failures.symm⟩

end Balance

section Sample

/-- A transport that counts the queries it is sent, and rejects them all. -/
inductive Turnstile where
  | closed

instance : Transport Turnstile Nat ScriptedSource where
  submit _ _ _ count := ⟨.error (.temporaryFailure "later"), count + 1, []⟩

/-- Two requests; one asks for rows again and again, and the other is left alone. -/
theorem run_accounts_turnstile :
    let create : Action Turnstile Nat ScriptedSource :=
      .create Json.Value inferInstance (.transport .closed ⟨1⟩) .empty
    let w := run 7 [create, create, .call 0 .next, .call 0 (.rows 3), .call 0 .submit]
    w.state = 8 ∧ Signal.total .queriesSubmitted w.signals = 1 ∧
      (Signal.entries w.signals).countP LogEntry.tellsFailure = 1 := by
  intro create w
  obtain ⟨submitted, metered, -, -, -, -, told, -, -⟩ :=
    run_accounts 7 [create, create, .call 0 .next, .call 0 (.rows 3), .call 0 .submit]
  have meters : Request.Meters Turnstile fun count : Nat => count := fun _ _ _ _ => rfl
  have counted : Signal.total .queriesSubmitted w.signals = 1 := submitted
  have counts : w.state = 7 + Signal.total .queriesSubmitted w.signals :=
    metered _ meters (by simp [create])
  rw [counted] at counts
  exact ⟨counts, counted, told⟩

end Sample

end Workload

end DocViews
