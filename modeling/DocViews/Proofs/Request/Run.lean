import DocViews.Proofs.Request.Operations

/-!
Runs of a request: the calls of its caller, one after another, in any order, and between
them whatever others do to the state that the transports share. A run is cut down to the
moves it is made of: a submission, a row, or the end of the stream.
-/

namespace DocViews.Request

variable {κ ω σ ρ α : Type}

inductive Origin (κ σ : Type) where
  /-- By building a query, to be submitted through this transport. -/
  | transport (handle : κ) (limit : Duration)
  /-- By a submission elsewhere, which gave this source. -/
  | source (rows : σ)

/-- The request for a query, as it is built. -/
def Origin.request [RowType ρ] (query : EncodedQuery) : Origin κ σ → Request κ σ ρ
  | .transport handle limit => .new handle query limit
  | .source rows => .ofSource rows query

/-- The calls of a caller, who waits for each answer before the next call. A stream of rows can be
dropped between two polls, and not during one. -/
inductive Use where
  | submit
  | next
  /-- The stream of the rows that are left, polled so many times and then dropped. -/
  | rows (polls : Nat)
  /-- All rows that are left, as far as so many pulls get. -/
  | execute (pulls : Nat)
  deriving DecidableEq, Repr

inductive Answer (ρ : Type) where
  | submitted (answer : Except ViewError Unit)
  | next (answer : Pull ρ)
  | rows (answer : Except ViewError (List (Except ViewError ρ)))
  | executed (answer : Except ViewError (List ρ))

/-- What happens while a request is in use. -/
inductive Event (ω : Type) where
  | call (use : Use)
  /-- Others change what the transports share. -/
  | interference (change : ω → ω)

section Calls

variable [Transport κ ω σ] [RowSource σ]

/-- The rows that so many polls of the stream of rows yield. -/
def rowsUpTo (polls : Nat) (r : Request κ σ ρ) (state : ω) :
    Result κ ω σ ρ (Except ViewError (List (Except ViewError ρ))) :=
  if r.stage.canPull then
    let taken := takeRows polls r state
    { taken with answer := .ok taken.answer }
  else ⟨.error .alreadyQueried, r, state, []⟩

/-- The rows that so many pulls collect, from a request that is not done. -/
def executeUpTo (pulls : Nat) (r : Request κ σ ρ) (state : ω) :
    Result κ ω σ ρ (Except ViewError (List ρ)) :=
  if r.stage.canPull then collectUpTo pulls r state
  else ⟨.error .alreadyQueried, r, state, []⟩

def use (u : Use) (r : Request κ σ ρ) (state : ω) : Result κ ω σ ρ (Answer ρ) :=
  match u with
  | .submit =>
      let result := r.submit state
      { result with answer := .submitted result.answer }
  | .next =>
      let result := r.next state
      { result with answer := .next result.answer }
  | .rows polls =>
      let result := r.rowsUpTo polls state
      { result with answer := .rows result.answer }
  | .execute pulls =>
      let result := r.executeUpTo pulls state
      { result with answer := .executed result.answer }

/-- Lets the events happen one after another. -/
def run : List (Event ω) → Request κ σ ρ → ω → Result κ ω σ ρ (List (Answer ρ))
  | [], r, state => ⟨[], r, state, []⟩
  | .interference change :: events, r, state => run events r (change state)
  | .call u :: events, r, state =>
      let first := r.use u state
      let more := run events first.request first.state
      ⟨first.answer :: more.answer, more.request, more.state, first.signals ++ more.signals⟩

end Calls

section Finite

variable [Transport κ ω σ] [FiniteSource σ]

/-- The bound on the pulls is positive: the end of the rows is asked for too. -/
theorem pullsLeft_pos (r : Request κ σ ρ) : ∃ n, r.pullsLeft = n + 1 := by
  unfold pullsLeft
  cases r.source with
  | none => exact ⟨0, rfl⟩
  | some source => exact ⟨_, rfl⟩

/-- Draining a source that cannot yield rows forever takes so many pulls. -/
theorem execute_eq_executeUpTo (r : Request κ σ ρ) (state : ω) :
    ∃ pulls, r.execute state = r.executeUpTo pulls state := by
  by_cases live : r.stage.canPull
  · simp only [execute, executeUpTo, if_pos live]
    cases hready : (r.ensureSubmitted state).answer with
    | error error =>
        refine ⟨1, ?_⟩
        simp only [collectUpTo, next_of_ensureSubmitted_error live hready]
    | ok _ =>
        obtain ⟨n, hn⟩ := pullsLeft_pos (r.ensureSubmitted state).request
        refine ⟨n + 1, ?_⟩
        simp only [hn, collectUpTo, next_of_ensureSubmitted live hready]
        split <;> simp only [List.append_assoc]
  · exact ⟨0, by simp only [execute, executeUpTo, if_neg live]⟩

theorem rows_eq_rowsUpTo (r : Request κ σ ρ) (limit : Option Nat) (state : ω) :
    ∃ polls, r.rows limit state = r.rowsUpTo polls state := by
  cases limit with
  | some limit => exact ⟨limit, rfl⟩
  | none =>
      by_cases live : r.stage.canPull
      · simp only [rows, drain, rowsUpTo, if_pos live]
        cases hready : (r.ensureSubmitted state).answer with
        | error error =>
            refine ⟨1, ?_⟩
            simp only [takeRows, next_of_ensureSubmitted_error live hready, List.append_nil]
        | ok _ =>
            obtain ⟨n, hn⟩ := pullsLeft_pos (r.ensureSubmitted state).request
            refine ⟨n + 1, ?_⟩
            simp only [hn, takeRows, next_of_ensureSubmitted live hready]
            split <;> simp only [List.append_assoc]
      · exact ⟨0, by simp only [rows, rowsUpTo, if_neg live]⟩

end Finite

/-! What a request does to itself and to others in one move. -/

/-- One move of a request: what it becomes, and the calls it makes. -/
inductive Move [RowSource σ] (r : Request κ σ ρ) : Request κ σ ρ → List Call → Prop where
  | refused : Move r r []
  | accepted (source : σ) (unsubmitted : r.stage = .notStarted) :
      Move r { r with
        transport := none, source := some source, stage := .streaming, timed := true } [.submit]
  | rejected (unsubmitted : r.stage = .notStarted) :
      Move r (r.closed r.metadata?) [.submit]
  | row {source after : σ} {payload : Bytes} {row : ρ}
      (streaming : r.stage = .streaming) (held : r.source = some source)
      (answered : RowSource.next source = (.ok (.row payload), after))
      (decoded : r.decodeRow payload = .ok row) :
      Move r { r with source := some after, rowsStreamed := r.rowsStreamed + 1 }
        [.next (.ok (.row payload)), .decode r.serializer.name payload]
  | ended {source after : σ} {pulled : Pulled} (metadata : Option Metadata)
      (streaming : r.stage = .streaming) (held : r.source = some source)
      (answered : RowSource.next source = (pulled, after)) (ends : r.EndsWith pulled) :
      Move r (r.closed metadata) (.next pulled :: r.closingCalls pulled)

inductive Moves [RowSource σ] : Request κ σ ρ → Request κ σ ρ → List Call → Prop where
  | none {r : Request κ σ ρ} : Moves r r []
  | more {r between after : Request κ σ ρ} {calls further : List Call}
      (first : Move r between calls) (rest : Moves between after further) :
      Moves r after (calls ++ further)

end DocViews.Request
