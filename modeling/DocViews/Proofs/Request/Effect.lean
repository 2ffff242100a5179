import DocViews.Proofs.Request.Steps

/-!
What a call on a request does, told once for the two steps that every call is made of. What
holds of both steps, and is kept when one follows the other, holds of every call.
-/

namespace DocViews.Request

variable {κ ω σ ρ α : Type}

/-- A relation between a request with the shared state, what can be observed of a call, and
both afterwards. -/
abbrev Effect (κ ω σ ρ : Type) :=
  Request κ σ ρ → ω → List Signal → Request κ σ ρ → ω → Prop

namespace Effect

/-- Whether a call that comes to this result has the effect. -/
def Of (E : Effect κ ω σ ρ) (r : Request κ σ ρ) (state : ω) (result : Result κ ω σ ρ α) : Prop :=
  E r state result.signals result.request result.state

/-- An effect that the submission and the pull have, and that adds up. -/
structure Additive [Transport κ ω σ] [RowSource σ] (E : Effect κ ω σ ρ) : Prop where
  nothing (r : Request κ σ ρ) (state : ω) : E r state [] r state
  andThen {r between after : Request κ σ ρ} {state middle final : ω}
    {signals further : List Signal} (first : E r state signals between middle)
    (second : E between middle further after final) : E r state (signals ++ further) after final
  submit {r : Request κ σ ρ} (h : r.Sound) (state : ω) : E.Of r state (r.submit state)
  pull {r : Request κ σ ρ} (h : r.Sound) (streaming : r.stage = .streaming) (state : ω) :
    E r state r.pull.2.2 r.pull.2.1 state

namespace Additive

section Calls

variable [Transport κ ω σ] [RowSource σ] {E : Effect κ ω σ ρ} {r : Request κ σ ρ}

theorem next (additive : E.Additive) (h : r.Sound) (state : ω) : E.Of r state (r.next state) := by
  cases hstage : r.stage with
  | notStarted =>
      have sent := additive.submit h state
      rw [next_notStarted hstage]
      cases hanswer : (r.submit state).answer with
      | error error => exact sent
      | ok _ =>
          have streaming := submit_streaming hanswer
          have sound := (submit_shows h state).sound h
          exact additive.andThen sent (additive.pull sound streaming (r.submit state).state)
  | streaming =>
      rw [next_streaming hstage]
      exact additive.pull h hstage state
  | done =>
      rw [next_done hstage]
      exact additive.nothing r state

end Calls

end Additive

/-- The moves that the signals show are an effect that adds up. -/
theorem shows_additive [Transport κ ω σ] [RowSource σ] :
    Additive fun (r : Request κ σ ρ) (_ : ω) signals after (_ : ω) => Shows r after signals where
  nothing r _ := .none r
  andThen := Shows.trans
  submit := submit_shows
  pull h streaming _ := pull_shows h streaming

end Effect

theorem next_shows [Transport κ ω σ] [RowSource σ] {r : Request κ σ ρ} (h : r.Sound) (state : ω) :
    Shows r (r.next state).request (r.next state).signals :=
  Effect.shows_additive.next h state

namespace Effect.Additive

section Calls

variable [Transport κ ω σ] [RowSource σ] {E : Effect κ ω σ ρ} {r : Request κ σ ρ}

theorem takeRows (additive : E.Additive) (h : r.Sound) (limit : Nat) (state : ω) :
    E.Of r state (Request.takeRows limit r state) := by
  induction limit generalizing r state with
  | zero => exact additive.nothing r state
  | succ limit ih =>
      have first := additive.next h state
      have more := ih ((next_shows h state).sound h) (r.next state).state
      simp only [Request.takeRows]
      split
      · exact first
      · exact additive.andThen first more

theorem collectUpTo (additive : E.Additive) (h : r.Sound) (limit : Nat) (state : ω) :
    E.Of r state (Request.collectUpTo limit r state) := by
  induction limit generalizing r state with
  | zero => exact additive.nothing r state
  | succ limit ih =>
      have first := additive.next h state
      have more := ih ((next_shows h state).sound h) (r.next state).state
      simp only [Request.collectUpTo]
      split
      · exact first
      · exact first
      · exact additive.andThen first more

theorem rowsUpTo (additive : E.Additive) (h : r.Sound) (polls : Nat) (state : ω) :
    E.Of r state (r.rowsUpTo polls state) := by
  unfold Request.rowsUpTo
  split
  · exact additive.takeRows h polls state
  · exact additive.nothing r state

theorem executeUpTo (additive : E.Additive) (h : r.Sound) (pulls : Nat) (state : ω) :
    E.Of r state (r.executeUpTo pulls state) := by
  unfold Request.executeUpTo
  split
  · exact additive.collectUpTo h pulls state
  · exact additive.nothing r state

/-- Every call has the effect, since it is made of submissions and pulls. -/
theorem use (additive : E.Additive) (h : r.Sound) (u : Use) (state : ω) :
    E.Of r state (r.use u state) := by
  cases u with
  | submit => exact additive.submit h state
  | next => exact additive.next h state
  | rows polls => exact additive.rowsUpTo h polls state
  | execute pulls => exact additive.executeUpTo h pulls state

end Calls

section Finite

variable [Transport κ ω σ] [FiniteSource σ] {E : Effect κ ω σ ρ} {r : Request κ σ ρ}

theorem rows (additive : E.Additive) (h : r.Sound) (limit : Option Nat) (state : ω) :
    E.Of r state (r.rows limit state) := by
  obtain ⟨polls, hpolls⟩ := r.rows_eq_rowsUpTo limit state
  rw [hpolls]
  exact additive.rowsUpTo h polls state

theorem execute (additive : E.Additive) (h : r.Sound) (state : ω) :
    E.Of r state (r.execute state) := by
  obtain ⟨pulls, hpulls⟩ := r.execute_eq_executeUpTo state
  rw [hpulls]
  exact additive.executeUpTo h pulls state

end Finite

end Effect.Additive

theorem use_shows [Transport κ ω σ] [RowSource σ] {r : Request κ σ ρ} (h : r.Sound) (u : Use)
    (state : ω) : Shows r (r.use u state).request (r.use u state).signals :=
  Effect.shows_additive.use h u state

end DocViews.Request
