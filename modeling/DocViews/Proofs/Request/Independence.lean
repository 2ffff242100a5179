import DocViews.Proofs.Request.Run

/-!
What passes between a request and its surroundings. The transports are asked once, for the
outcome of the submission; nothing else that a request answers or becomes depends on the state
that the transports share, or on the time that it was given. And nothing else that it does
changes that state.
-/

namespace DocViews.Request

variable {κ ω σ ρ α : Type}

/-- The request with another timeout. -/
def within (r : Request κ σ ρ) (limit : Duration) : Request κ σ ρ := { r with timeout := limit }

/-- Whether a request will ask no transport any more. -/
def Settled (r : Request κ σ ρ) : Prop := r.stage = .notStarted → r.transport = none

theorem settled_of_started {r : Request κ σ ρ} (started : r.stage ≠ .notStarted) : r.Settled :=
  fun unsubmitted => absurd unsubmitted started

theorem settled_of_not_canPull {r : Request κ σ ρ} (finished : ¬ r.stage.canPull) : r.Settled := by
  apply settled_of_started
  intro unsubmitted
  simp [unsubmitted, Stage.canPull_iff] at finished

/-- Whether two results are the same but for the timeout and the shared state. -/
structure Result.Alike (first second : Result κ ω σ ρ α) (limit : Duration) : Prop where
  answer : second.answer = first.answer
  request : second.request = first.request.within limit

section Pull

variable [RowSource σ]

theorem complete_within (r : Request κ σ ρ) (limit : Duration) :
    (r.within limit).complete =
      (r.complete.1, r.complete.2.1.within limit, r.complete.2.2) := by
  unfold complete
  cases hsource : r.source with
  | none => simp only [within, hsource]; rfl
  | some source =>
      simp only [within, hsource]
      cases decodeTrailer (RowSource.trailer source).1 <;> rfl

theorem complete_done (r : Request κ σ ρ) : r.complete.2.1.stage = .done := by
  unfold complete
  cases r.source with
  | none => rfl
  | some source =>
      simp only
      cases decodeTrailer (RowSource.trailer source).1 <;> rfl

theorem receive_within (r : Request κ σ ρ) (limit : Duration) (pulled : Pulled) :
    (r.within limit).receive pulled =
      ((r.receive pulled).1, (r.receive pulled).2.1.within limit, (r.receive pulled).2.2) := by
  rcases pulled with fault | (payload | m | _)
  · rfl
  · have hrow : (r.within limit).decodeRow payload = r.decodeRow payload := rfl
    simp only [receive, hrow]
    cases r.decodeRow payload <;> rfl
  · rfl
  · simp only [receive, complete_within]
    rcases r.complete with ⟨answer, after, signals⟩
    cases answer <;> rfl

/-- What a request receives leaves it in its stage, or ends it. -/
theorem receive_stage (r : Request κ σ ρ) (pulled : Pulled) :
    (r.receive pulled).2.1.stage = r.stage ∨ (r.receive pulled).2.1.stage = .done := by
  rcases pulled with fault | (payload | m | _)
  · exact .inr rfl
  · simp only [receive]
    cases r.decodeRow payload with
    | ok row => exact .inl rfl
    | error error => exact .inr rfl
  · exact .inr rfl
  · have hdone := r.complete_done
    simp only [receive]
    rcases hcomplete : r.complete with ⟨answer, after, signals⟩
    rw [hcomplete] at hdone
    cases answer <;> exact .inr hdone

theorem pull_within (r : Request κ σ ρ) (limit : Duration) :
    (r.within limit).pull = (r.pull.1, r.pull.2.1.within limit, r.pull.2.2) := by
  unfold pull
  cases hsource : r.source with
  | none => simp only [within, hsource]; rfl
  | some source =>
      have hwithin := receive_within { r with source := some (RowSource.next source).2 } limit
        (RowSource.next source).1
      simp only [within, hsource] at hwithin ⊢
      rw [hwithin]

theorem pull_stage (r : Request κ σ ρ) :
    r.pull.2.1.stage = r.stage ∨ r.pull.2.1.stage = .done := by
  unfold pull
  cases r.source with
  | none => exact .inr rfl
  | some source =>
      exact receive_stage { r with source := some (RowSource.next source).2 }
        (RowSource.next source).1

end Pull

section Submit

variable [Transport κ ω σ] {r : Request κ σ ρ} {state other : ω} {limit : Duration}

/-- Whether a submission would come to the same in another state and with another timeout, if
there is one to come. -/
def Agrees (r : Request κ σ ρ) (limit : Duration) (state other : ω) : Prop :=
  r.stage = .notStarted → ∀ handle, r.transport = some handle →
    (Transport.submit handle r.query limit other).outcome =
      (Transport.submit handle r.query r.timeout state).outcome

theorem Settled.agrees (settled : r.Settled) : r.Agrees limit state other := by
  intro unsubmitted handle held
  rw [settled unsubmitted] at held
  cases held

theorem submit_alike (agrees : r.Agrees limit state other) :
    (r.submit state).Alike ((r.within limit).submit other) limit := by
  by_cases unsubmitted : r.stage = .notStarted
  · cases held : r.transport with
    | none =>
        have hfirst : (r.submit state).answer = .error .alreadyQueried ∧
            (r.submit state).request = r := by
          simp [submit, unsubmitted, Stage.canSubmit, held]
        have hsecond : ((r.within limit).submit other).answer = .error .alreadyQueried ∧
            ((r.within limit).submit other).request = r.within limit := by
          simp [submit, within, unsubmitted, Stage.canSubmit, held]
        constructor
        · rw [hfirst.1, hsecond.1]
        · rw [hfirst.2, hsecond.2]
    | some handle =>
        have houtcome := agrees unsubmitted handle held
        cases hsent : (Transport.submit handle r.query r.timeout state).outcome with
        | ok source =>
            obtain ⟨_, hsubmit, -⟩ := submit_accepted unsubmitted held hsent
            obtain ⟨_, hother, -⟩ := submit_accepted (r := r.within limit) unsubmitted held
              (houtcome.trans hsent)
            rw [hsubmit, hother]
            exact ⟨rfl, rfl⟩
        | error error =>
            obtain ⟨_, hsubmit, -⟩ := submit_rejected unsubmitted held hsent
            obtain ⟨_, hother, -⟩ := submit_rejected (r := r.within limit) unsubmitted held
              (houtcome.trans hsent)
            rw [hsubmit, hother]
            exact ⟨rfl, rfl⟩
  · rw [submit_refused unsubmitted, submit_refused (r := r.within limit) unsubmitted]
    exact ⟨rfl, rfl⟩

theorem submit_settled (r : Request κ σ ρ) (state : ω) : (r.submit state).request.Settled := by
  by_cases unsubmitted : r.stage = .notStarted
  · cases held : r.transport with
    | none =>
        have hrequest : (r.submit state).request = r := by
          simp [submit, unsubmitted, Stage.canSubmit, held]
        rw [hrequest]
        exact fun _ => held
    | some handle =>
        cases hsent : (Transport.submit handle r.query r.timeout state).outcome with
        | ok source =>
            obtain ⟨_, hsubmit, -⟩ := submit_accepted unsubmitted held hsent
            have started : Stage.streaming ≠ .notStarted := by decide
            rw [hsubmit]
            exact settled_of_started started
        | error error =>
            obtain ⟨_, hsubmit, -⟩ := submit_rejected unsubmitted held hsent
            have started : Stage.done ≠ .notStarted := by decide
            rw [hsubmit]
            exact settled_of_started started
  · rw [submit_refused unsubmitted]
    exact settled_of_started unsubmitted

theorem ensureSubmitted_alike (agrees : r.Agrees limit state other) :
    (r.ensureSubmitted state).Alike ((r.within limit).ensureSubmitted other) limit := by
  have hstage : (r.within limit).stage = r.stage := rfl
  unfold ensureSubmitted
  rw [hstage]
  by_cases ready : r.stage.canSubmit
  · rw [if_pos ready, if_pos ready]
    exact submit_alike agrees
  · rw [if_neg ready, if_neg ready]
    exact ⟨rfl, rfl⟩

theorem ensureSubmitted_settled (r : Request κ σ ρ) (state : ω) :
    (r.ensureSubmitted state).request.Settled := by
  by_cases ready : r.stage.canSubmit
  · simp only [ensureSubmitted, if_pos ready]
    exact r.submit_settled state
  · simp only [ensureSubmitted, if_neg ready]
    apply settled_of_started
    intro unsubmitted
    simp [unsubmitted, Stage.canSubmit] at ready

end Submit

section Rows

variable [Transport κ ω σ] [RowSource σ] {r : Request κ σ ρ} {state other : ω} {limit : Duration}

theorem next_alike (agrees : r.Agrees limit state other) :
    (r.next state).Alike ((r.within limit).next other) limit := by
  have hstage : (r.within limit).stage = r.stage := rfl
  unfold next
  rw [hstage]
  by_cases live : r.stage.canPull
  · rw [if_pos live, if_pos live]
    obtain ⟨hanswer, hrequest⟩ := ensureSubmitted_alike agrees
    simp only [hanswer]
    cases (r.ensureSubmitted state).answer with
    | error error => exact ⟨rfl, hrequest⟩
    | ok _ =>
        simp only [hrequest, pull_within]
        exact ⟨rfl, rfl⟩
  · rw [if_neg live, if_neg live]
    exact ⟨rfl, rfl⟩

theorem next_settled (r : Request κ σ ρ) (state : ω) : (r.next state).request.Settled := by
  cases hstage : r.stage with
  | notStarted =>
      have settled := r.submit_settled state
      rw [next_notStarted hstage]
      cases hanswer : (r.submit state).answer with
      | error error => exact settled
      | ok _ =>
          apply settled_of_started
          rcases (r.submit state).request.pull_stage with same | done
          · simp only [same, submit_streaming hanswer]
            exact nofun
          · simp only [done]
            exact nofun
  | streaming =>
      rw [next_streaming hstage]
      apply settled_of_started
      rcases r.pull_stage with same | done
      · simp only [same, hstage]
        exact nofun
      · simp only [done]
        exact nofun
  | done =>
      rw [next_done hstage]
      apply settled_of_started
      rw [hstage]
      exact nofun

theorem takeRows_alike (n : Nat) (agrees : r.Agrees limit state other) :
    (takeRows n r state).Alike (takeRows n (r.within limit) other) limit := by
  induction n generalizing r state other with
  | zero => exact ⟨rfl, rfl⟩
  | succ n ih =>
      obtain ⟨hanswer, hrequest⟩ := next_alike agrees
      simp only [takeRows, hanswer, hrequest]
      cases (r.next state).answer with
      | none => exact ⟨rfl, rfl⟩
      | some row =>
          have agrees' : (r.next state).request.Agrees limit (r.next state).state
              ((r.within limit).next other).state := (r.next_settled state).agrees
          obtain ⟨hrows, hafter⟩ := ih agrees'
          exact ⟨congrArg (row :: ·) hrows, hafter⟩

theorem takeRows_settled (settled : r.Settled) (n : Nat) :
    (takeRows n r state).request.Settled := by
  induction n generalizing r state with
  | zero => exact settled
  | succ n ih =>
      have first := r.next_settled state
      simp only [takeRows]
      cases (r.next state).answer with
      | none => exact first
      | some row => exact ih first

/-- To ask for a row once is enough. -/
theorem takeRows_succ_settled (r : Request κ σ ρ) (n : Nat) (state : ω) :
    (takeRows (n + 1) r state).request.Settled := by
  have first := r.next_settled state
  simp only [takeRows]
  cases (r.next state).answer with
  | none => exact first
  | some row => exact takeRows_settled first n

theorem collectUpTo_alike (n : Nat) (agrees : r.Agrees limit state other) :
    (collectUpTo n r state).Alike (collectUpTo n (r.within limit) other) limit := by
  induction n generalizing r state other with
  | zero => exact ⟨rfl, rfl⟩
  | succ n ih =>
      obtain ⟨hanswer, hrequest⟩ := next_alike agrees
      simp only [collectUpTo, hanswer, hrequest]
      cases (r.next state).answer with
      | none => exact ⟨rfl, rfl⟩
      | some row =>
          cases row with
          | error error => exact ⟨rfl, rfl⟩
          | ok row =>
              have agrees' : (r.next state).request.Agrees limit (r.next state).state
                  ((r.within limit).next other).state := (r.next_settled state).agrees
              obtain ⟨hrows, hafter⟩ := ih agrees'
              exact ⟨congrArg (Except.map (row :: ·)) hrows, hafter⟩

theorem collectUpTo_settled (settled : r.Settled) (n : Nat) :
    (collectUpTo n r state).request.Settled := by
  induction n generalizing r state with
  | zero => exact settled
  | succ n ih =>
      have first := r.next_settled state
      simp only [collectUpTo]
      cases (r.next state).answer with
      | none => exact first
      | some row =>
          cases row with
          | error error => exact first
          | ok row => exact ih first

end Rows

section Finite

variable [Transport κ ω σ] [FiniteSource σ] {r : Request κ σ ρ} {state other : ω}
  {limit : Duration}

theorem drain_alike (agrees : r.Agrees limit state other) :
    (r.drain state).Alike ((r.within limit).drain other) limit := by
  obtain ⟨hanswer, hrequest⟩ := ensureSubmitted_alike agrees
  simp only [drain, hanswer, hrequest]
  cases (r.ensureSubmitted state).answer with
  | error error => exact ⟨rfl, rfl⟩
  | ok _ =>
      have agrees' : (r.ensureSubmitted state).request.Agrees limit (r.ensureSubmitted state).state
          ((r.within limit).ensureSubmitted other).state :=
        (r.ensureSubmitted_settled state).agrees
      obtain ⟨hrows, hafter⟩ :=
        takeRows_alike (r.ensureSubmitted state).request.pullsLeft agrees'
      exact ⟨hrows, hafter⟩

theorem drain_settled (r : Request κ σ ρ) (state : ω) : (r.drain state).request.Settled := by
  have ready := r.ensureSubmitted_settled state
  simp only [drain]
  cases (r.ensureSubmitted state).answer with
  | error error => exact ready
  | ok _ => exact takeRows_settled ready _

theorem rows_alike (most : Option Nat) (agrees : r.Agrees limit state other) :
    (r.rows most state).Alike ((r.within limit).rows most other) limit := by
  have hstage : (r.within limit).stage = r.stage := rfl
  unfold rows
  rw [hstage]
  by_cases live : r.stage.canPull
  · rw [if_pos live, if_pos live]
    cases most with
    | none =>
        obtain ⟨hanswer, hrequest⟩ := drain_alike agrees
        exact ⟨congrArg Except.ok hanswer, hrequest⟩
    | some n =>
        obtain ⟨hanswer, hrequest⟩ := takeRows_alike n agrees
        exact ⟨congrArg Except.ok hanswer, hrequest⟩
  · rw [if_neg live, if_neg live]
    exact ⟨rfl, rfl⟩

theorem execute_alike (agrees : r.Agrees limit state other) :
    (r.execute state).Alike ((r.within limit).execute other) limit := by
  have hstage : (r.within limit).stage = r.stage := rfl
  unfold execute
  rw [hstage]
  by_cases live : r.stage.canPull
  · rw [if_pos live, if_pos live]
    obtain ⟨hanswer, hrequest⟩ := ensureSubmitted_alike agrees
    simp only [hanswer, hrequest]
    cases (r.ensureSubmitted state).answer with
    | error error => exact ⟨rfl, rfl⟩
    | ok _ =>
        have agrees' : (r.ensureSubmitted state).request.Agrees limit
            (r.ensureSubmitted state).state ((r.within limit).ensureSubmitted other).state :=
          (r.ensureSubmitted_settled state).agrees
        obtain ⟨hrows, hafter⟩ :=
          collectUpTo_alike (r.ensureSubmitted state).request.pullsLeft agrees'
        exact ⟨hrows, hafter⟩
  · rw [if_neg live, if_neg live]
    exact ⟨rfl, rfl⟩

theorem rows_settled (r : Request κ σ ρ) {most : Option Nat} (some_asked : most ≠ some 0)
    (state : ω) : (r.rows most state).request.Settled := by
  by_cases live : r.stage.canPull
  · simp only [rows, if_pos live]
    rcases most with _ | (_ | n)
    · exact r.drain_settled state
    · exact absurd rfl some_asked
    · exact r.takeRows_succ_settled n state
  · simp only [rows, if_neg live]
    exact settled_of_not_canPull live

theorem execute_settled (r : Request κ σ ρ) (state : ω) : (r.execute state).request.Settled := by
  by_cases live : r.stage.canPull
  · have ready := r.ensureSubmitted_settled state
    simp only [execute, if_pos live]
    cases (r.ensureSubmitted state).answer with
    | error error => exact ready
    | ok _ => exact collectUpTo_settled ready _
  · simp only [execute, if_neg live]
    exact settled_of_not_canPull live

end Finite

/-! What a request does to the state of the transports: it submits its query, if anything. -/

section State

/-- Whether a property of the shared state outlasts every submission. -/
def KeptBySubmission (κ : Type) [Transport κ ω σ] (P : ω → Prop) : Prop :=
  ∀ (handle : κ) q limit state, P state → P (Transport.submit handle q limit state).state

variable [Transport κ ω σ] {r : Request κ σ ρ} {state : ω} {P : ω → Prop}

theorem submit_keeps (keeps : KeptBySubmission κ P)
    (h : P state) : P (r.submit state).state := by
  by_cases unsubmitted : r.stage = .notStarted
  · cases held : r.transport with
    | none => simpa [submit, unsubmitted, Stage.canSubmit, held] using h
    | some handle =>
        have hkept := keeps handle r.query r.timeout state h
        cases hsent : (Transport.submit handle r.query r.timeout state).outcome with
        | ok source =>
            obtain ⟨_, hsubmit, -⟩ := submit_accepted unsubmitted held hsent
            rw [hsubmit]
            exact hkept
        | error error =>
            obtain ⟨_, hsubmit, -⟩ := submit_rejected unsubmitted held hsent
            rw [hsubmit]
            exact hkept
  · rw [submit_refused unsubmitted]
    exact h

theorem next_keeps [RowSource σ] (keeps : KeptBySubmission κ P)
    (h : P state) : P (r.next state).state := by
  cases hstage : r.stage with
  | notStarted =>
      have hkept : P (r.submit state).state := submit_keeps keeps h
      rw [next_notStarted hstage]
      cases (r.submit state).answer <;> exact hkept
  | streaming =>
      rw [next_streaming hstage]
      exact h
  | done =>
      rw [next_done hstage]
      exact h

theorem takeRows_keeps [RowSource σ] (keeps : KeptBySubmission κ P)
    (n : Nat) (h : P state) : P (takeRows n r state).state := by
  induction n generalizing r state with
  | zero => exact h
  | succ n ih =>
      have first : P (r.next state).state := next_keeps keeps h
      simp only [takeRows]
      cases (r.next state).answer with
      | none => exact first
      | some row => exact ih first

theorem collectUpTo_keeps [RowSource σ] (keeps : KeptBySubmission κ P)
    (n : Nat) (h : P state) : P (collectUpTo n r state).state := by
  induction n generalizing r state with
  | zero => exact h
  | succ n ih =>
      have first : P (r.next state).state := next_keeps keeps h
      simp only [collectUpTo]
      cases (r.next state).answer with
      | none => exact first
      | some row =>
          cases row with
          | error error => exact first
          | ok row => exact ih first

theorem rows_keeps [FiniteSource σ] (keeps : KeptBySubmission κ P)
    (most : Option Nat) (h : P state) : P (r.rows most state).state := by
  obtain ⟨polls, hpolls⟩ := r.rows_eq_rowsUpTo most state
  rw [hpolls, rowsUpTo]
  split
  · exact takeRows_keeps keeps polls h
  · exact h

theorem execute_keeps [FiniteSource σ] (keeps : KeptBySubmission κ P)
    (h : P state) : P (r.execute state).state := by
  obtain ⟨pulls, hpulls⟩ := r.execute_eq_executeUpTo state
  rw [hpulls, executeUpTo]
  split
  · exact collectUpTo_keeps keeps pulls h
  · exact h

end State

end DocViews.Request
