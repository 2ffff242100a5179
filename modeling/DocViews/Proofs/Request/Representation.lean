import DocViews.Proofs.Request.Effect

/-!
What a request holds goes with its stage, in every state that any run reaches: a request
that has not started has a transport, one that is streaming has a source, one that is done
has neither. So the branches for a field that is missing are never taken, and the stages
are passed in their order.
-/

namespace DocViews.Request

variable {κ ω σ ρ : Type}

section Steps

variable [Transport κ ω σ] [RowSource σ]

/-- A run is made of moves, and takes no fallback. -/
theorem run_shows {r : Request κ σ ρ} (h : r.Sound) (events : List (Event ω)) (state : ω) :
    Shows r (run events r state).request (run events r state).signals := by
  induction events generalizing r state with
  | nil => exact .none r
  | cons event events ih =>
      cases event with
      | call u =>
          have first := use_shows h u state
          exact first.trans (ih (first.moves.sound h) _)
      | interference change => exact ih h (change state)

theorem run_append (events more : List (Event ω)) (r : Request κ σ ρ) (state : ω) :
    (run (events ++ more) r state).request =
      (run more (run events r state).request (run events r state).state).request := by
  induction events generalizing r state with
  | nil => rfl
  | cons event events ih =>
      cases event with
      | call u => exact ih _ _
      | interference change => exact ih _ _

/-- In every state that a run reaches, the fields of the request say together what they
should, its stage has only moved forward, and no branch for a missing field was taken. -/
theorem representation_sound [RowType ρ] (origin : Origin κ σ) (query : EncodedQuery)
    (events more : List (Event ω)) (state : ω) :
    let before := run events (origin.request query : Request κ σ ρ) state
    let after := run (events ++ more) (origin.request query : Request κ σ ρ) state
    before.request.Sound ∧ before.request.stage ≤ after.request.stage ∧
      Signal.fallbacks before.signals = [] := by
  have start : (origin.request query : Request κ σ ρ).Sound := origin.sound query
  have first := run_shows start events state
  have second := run_shows (first.moves.sound start) more
    (run events (origin.request query : Request κ σ ρ) state).state
  refine ⟨first.moves.sound start, ?_, first.quiet⟩
  rw [run_append]
  exact second.moves.stage_le

end Steps

end DocViews.Request
