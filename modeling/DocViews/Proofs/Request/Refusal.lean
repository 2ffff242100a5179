import DocViews.Proofs.Request.Representation
import DocViews.Proofs.Request.Stream

/-!
Calls that the stage of a request does not admit. Such a call is refused before anything is
taken, counted or failed, so it may be made at any moment of a run without a trace in the rest
of it: the other calls answer what they would have answered, and the request and the state that
the transports share come to the same. A refused submission is seen in the log, and nowhere else.
-/

namespace DocViews.Request

variable {κ ω σ ρ : Type}

/-- Whether a request in this stage admits the call: the submission once, before anything else,
and the others until the rows have ended. -/
def Use.Admitted (stage : Stage) : Use → Prop
  | .submit => stage = .notStarted
  | _ => stage ≠ .done

instance (stage : Stage) : (u : Use) → Decidable (u.Admitted stage)
  | .submit => inferInstanceAs (Decidable (stage = .notStarted))
  | .next | .rows _ | .execute _ => inferInstanceAs (Decidable (stage ≠ .done))

/-- What a call answers that is not admitted. -/
def Use.refusal : Use → Answer ρ
  | .submit => .submitted (.error .alreadyQueried)
  | .next => .next none
  | .rows _ => .rows (.error .alreadyQueried)
  | .execute _ => .executed (.error .alreadyQueried)

/-- What happens in a run, told apart by whether it belongs to the run or was inserted. -/
inductive Occurrence (ω : Type) where
  | planned (event : Event ω)
  | inserted (u : Use)

namespace Occurrence

def event : Occurrence ω → Event ω
  | .planned event => event
  | .inserted u => .call u

def planned? : Occurrence ω → Option (Event ω)
  | .planned event => some event
  | .inserted _ => none

end Occurrence

/-- The answers of a run without and with the inserted calls: each of these is refused, and the
other answers are the same. -/
inductive Woven : List (Occurrence ω) → List (Answer ρ) → List (Answer ρ) → Prop where
  | nil : Woven [] [] []
  | interference {occurrences : List (Occurrence ω)} {plain full : List (Answer ρ)}
      (change : ω → ω) (rest : Woven occurrences plain full) :
      Woven (.planned (.interference change) :: occurrences) plain full
  | call {occurrences : List (Occurrence ω)} {plain full : List (Answer ρ)} (u : Use)
      (answer : Answer ρ) (rest : Woven occurrences plain full) :
      Woven (.planned (.call u) :: occurrences) (answer :: plain) (answer :: full)
  | refused {occurrences : List (Occurrence ω)} {plain full : List (Answer ρ)} (u : Use)
      (rest : Woven occurrences plain full) :
      Woven (.inserted u :: occurrences) plain (u.refusal :: full)

section Runs

variable [Transport κ ω σ] [RowSource σ] {r : Request κ σ ρ} {state : ω}

/-- A call that is not admitted changes nothing, and makes no call on anyone. -/
theorem use_refused {u : Use} (refused : ¬ u.Admitted r.stage) (state : ω) :
    ∃ signals, r.use u state = ⟨u.refusal, r, state, signals⟩ ∧
      Signal.calls signals = [] ∧ ∀ counter, Signal.total counter signals = 0 := by
  cases u with
  | submit =>
      refine ⟨[r.span], ?_, rfl, fun _ => rfl⟩
      simp only [use, submit_refused refused]
      rfl
  | next =>
      have done : r.stage = .done := Decidable.not_not.mp refused
      refine ⟨[], ?_, rfl, fun _ => rfl⟩
      simp only [use, next_done done]
      rfl
  | rows polls =>
      have finished : ¬ r.stage.canPull := fun live => refused (Stage.canPull_iff.mp live)
      refine ⟨[], ?_, rfl, fun _ => rfl⟩
      simp only [use, rowsUpTo, if_neg finished]
      rfl
  | execute pulls =>
      have finished : ¬ r.stage.canPull := fun live => refused (Stage.canPull_iff.mp live)
      refine ⟨[], ?_, rfl, fun _ => rfl⟩
      simp only [use, executeUpTo, if_neg finished]
      rfl

/-- Whether no inserted call is admitted in the stage that the request has reached by then. -/
def NoneAdmitted (occurrences : List (Occurrence ω)) (r : Request κ σ ρ) (state : ω) : Prop :=
  ∀ before u after, occurrences = before ++ .inserted u :: after →
    ¬ u.Admitted (run (before.map Occurrence.event) r state).request.stage

variable {occurrences : List (Occurrence ω)}

theorem noneAdmitted_nil : NoneAdmitted [] r state := by
  intro before u after heq
  cases before <;> cases heq

/-- Nothing is admitted of what comes first, or of the rest from where that leads. -/
theorem noneAdmitted_cons {first : Occurrence ω} :
    NoneAdmitted (first :: occurrences) r state ↔
      (∀ u, first = .inserted u → ¬ u.Admitted r.stage) ∧
        NoneAdmitted occurrences (run [first.event] r state).request
          (run [first.event] r state).state := by
  have further (before : List (Occurrence ω)) :=
    run_append [first.event] (before.map Occurrence.event) r state
  constructor
  · refine fun refused => ⟨?_, ?_⟩
    · rintro u rfl
      exact refused [] u occurrences rfl
    · rintro before u after rfl
      rw [← further]
      exact refused (first :: before) u after rfl
  · rintro ⟨here, refused⟩ before u after heq
    cases before with
    | nil =>
        cases heq
        exact here u rfl
    | cons _ before =>
        cases heq
        rw [List.map_cons, ← List.singleton_append, further]
        exact refused before u after rfl

theorem run_woven (refused : NoneAdmitted occurrences r state) :
    let plain := run (occurrences.filterMap Occurrence.planned?) r state
    let full := run (occurrences.map Occurrence.event) r state
    Woven occurrences plain.answer full.answer ∧
      full.request = plain.request ∧ full.state = plain.state ∧
      Signal.calls full.signals = Signal.calls plain.signals ∧
      ∀ counter, Signal.total counter full.signals = Signal.total counter plain.signals := by
  -- Both runs are in the same request and the same shared state before every occurrence.
  induction occurrences generalizing r state with
  | nil => exact ⟨.nil, rfl, rfl, rfl, fun _ => rfl⟩
  | cons occurrence occurrences ih =>
      obtain ⟨here, rest⟩ := noneAdmitted_cons.mp refused
      rcases occurrence with (u | change) | u
      · simp only [Occurrence.event, run] at rest
        obtain ⟨woven, hrequest, hstate, hcalls, htotal⟩ := ih rest
        simp only [List.filterMap_cons, List.map_cons, Occurrence.planned?, Occurrence.event, run]
        refine ⟨.call u _ woven, hrequest, hstate, ?_, fun counter => ?_⟩
        · rw [Signal.calls_append, Signal.calls_append, hcalls]
        · rw [Signal.total_append, Signal.total_append, htotal]
      · obtain ⟨woven, further⟩ := ih rest
        exact ⟨.interference change woven, further⟩
      · obtain ⟨signals, hcall, quiet, uncounted⟩ := use_refused (here u rfl) state
        simp only [Occurrence.event, run, hcall] at rest
        obtain ⟨woven, hrequest, hstate, hcalls, htotal⟩ := ih rest
        simp only [List.filterMap_cons, List.map_cons, Occurrence.planned?, Occurrence.event, run,
          hcall]
        refine ⟨.refused u woven, hrequest, hstate, ?_, fun counter => ?_⟩
        · rw [Signal.calls_append, quiet, hcalls, List.nil_append]
        · rw [Signal.total_append, uncounted, htotal, Nat.zero_add]

/-- Calls that are not admitted leave no trace, wherever in a run they are inserted. They answer
that the query was already submitted, or that there is no row; what was reached before each of
them is what there is after it, a stream in progress too. The other calls answer the same as
without them, the request comes to the same in all its fields, its source at the same place, and
so do the shared state, the counters, and the calls on transport, source and serializer. -/
theorem refused_calls_invisible (r : Request κ σ ρ) (occurrences : List (Occurrence ω)) (state : ω)
    (refused : NoneAdmitted occurrences r state) :
    let plain := run (occurrences.filterMap Occurrence.planned?) r state
    let full := run (occurrences.map Occurrence.event) r state
    Woven occurrences plain.answer full.answer ∧
      full.request = plain.request ∧ full.state = plain.state ∧
      Signal.calls full.signals = Signal.calls plain.signals ∧
      (∀ counter, Signal.total counter full.signals = Signal.total counter plain.signals) ∧
      ∀ before u after, occurrences = before ++ .inserted u :: after →
        let reached := run (before.map Occurrence.event) r state
        let call := reached.request.use u reached.state
        call.answer = u.refusal ∧ call.request = reached.request ∧ call.state = reached.state := by
  obtain ⟨woven, hrequest, hstate, hcalls, htotal⟩ := run_woven refused
  refine ⟨woven, hrequest, hstate, hcalls, htotal, ?_⟩
  intro before u after heq
  obtain ⟨signals, hcall, -⟩ := use_refused (refused before u after heq)
    (run (before.map Occurrence.event) r state).state
  simp only [hcall]
  exact ⟨trivial, trivial, trivial⟩

end Runs

/-- A stream of one row that is lost behind it: submitted again while it is in progress, and used
in all ways once it is over. -/
theorem refused_calls_invisible_lostSource :
    let r : Request Route ScriptedSource Json.Value := .ofSource lostSource .empty
    let occurrences : List (Occurrence Store) :=
      [.inserted .submit, .planned (.call .next), .inserted .submit, .planned (.call (.rows 5)),
        .inserted .next, .inserted (.rows 2), .inserted (.execute 3), .inserted .submit]
    let plain := run [.call .next, .call (.rows 5)] r {}
    let full := run (occurrences.map Occurrence.event) r {}
    NoneAdmitted occurrences r {} ∧ Woven occurrences plain.answer full.answer ∧
      full.request = plain.request ∧ full.request.rowsStreamed = 1 := by
  intro r occurrences plain full
  have refused : NoneAdmitted occurrences r {} := by
    simp only [occurrences, noneAdmitted_cons, noneAdmitted_nil, Occurrence.inserted.injEq,
      forall_eq', reduceCtorEq, false_implies, implies_true, true_and, and_true]
    decide
  obtain ⟨woven, hrequest, -⟩ := refused_calls_invisible r occurrences {} refused
  have rows : full.request.rowsStreamed = 1 := by decide
  exact ⟨refused, woven, hrequest, rows⟩

end DocViews.Request
