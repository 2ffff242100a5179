import DocViews.Proofs.Bucket
import DocViews.Proofs.Request.Independence
import DocViews.Proofs.Store.Isolation
import DocViews.Session

/-!
What the requests of a session see of each other. A request sees the store once, when it is
submitted: from then on it delivers what it would deliver alone, on a store that stays as it
was then.
-/

namespace DocViews

/-- What a caller sees of a call on a request. -/
structure Seen where
  answer : CallAnswer
  stage : Stage
  rowsStreamed : Nat
  metadata? : Option Metadata

def Reply.seen? : Reply → Option Seen
  | .called answer after => some ⟨answer, after.stage, after.rowsStreamed, after.metadata?⟩
  | _ => none

/-- Whether a call submits a request that has not started. -/
def RequestCall.submits : RequestCall → Bool
  | .status | .rows (some 0) => false
  | _ => true

namespace Step

/-- The call on the request of this name, if the step is one. -/
def callOn? (name : String) : Step → Option RequestCall
  | .call other c => if other = name then some c else none
  | _ => none

/-- The name under which a request is opened. -/
def opens? : Step → Option String
  | .openView name _ _ _ _ | .openQuery name _ _ _ _ | .openSource name _ _ _ => some name
  | _ => none

/-- Whether a step changes a design document or arms a failure. -/
def mutates : Step → Bool
  | .upsertView _ _ _ _ | .emit _ _ _ _ | .dropDesignDocument _ _ | .armSubmitFailure _
  | .armStreamFailure _ => true
  | _ => false

end Step

/-- The calls on the request of this name. -/
def callsOn (name : String) (steps : List Step) : List RequestCall :=
  steps.filterMap (Step.callOn? name)

/-- A request on the store that has not been submitted. -/
def freshRequest (kind : RowKind) (query : EncodedQuery) (timeout : Duration) : OpenRequest :=
  { (.new .store query timeout : OpenRequest) with decode := kind.decode }

namespace Session

/-- What the caller of the request of this name sees while the steps are taken. -/
def observed (name : String) : Session → List Step → List Seen
  | _, [] => []
  | session, step :: more =>
      let (reply, after) := session.step step
      ((step.callOn? name).bind fun _ => reply.seen?).toList ++ observed name after more

/-- A session with one request. -/
def alone (store : Store) (request : OpenRequest) : Session where
  bucket := ⟨"default", {}⟩
  store := store
  requests := .ofPairs [("request", request)]

/-- What calls on a request for this query deliver if nobody else uses the store. -/
def delivered (kind : RowKind) (query : EncodedQuery) (store : Store)
    (calls : List RequestCall) : List Seen :=
  (alone store (freshRequest kind query ⟨0⟩)).observed "request" (calls.map (.call "request"))

variable {session other : Session} {name otherName : String} {r : OpenRequest} {limit : Duration}

theorem keep_alike (session other : Session) (name otherName : String) {α : Type}
    (answer : α → CallAnswer)
    {first second : Request.Result Route Store ScriptedSource Json.Value α}
    (alike : first.Alike second limit) :
    (session.keep name answer first).1.seen? = (other.keep otherName answer second).1.seen? ∧
      (session.keep name answer first).2.requests.find? name = some first.request ∧
      (other.keep otherName answer second).2.requests.find? otherName =
        some (first.request.within limit) := by
  refine ⟨?_, Dictionary.find?_insert_self .., ?_⟩
  · simp only [keep, Reply.seen?, alike.answer, alike.request]
    rfl
  · rw [← alike.request]
    exact Dictionary.find?_insert_self ..

/-- A call shows the same on two requests that differ in their timeouts at most, if their
submission would come to the same. -/
theorem call_alike (held : session.requests.find? name = some r)
    (otherHeld : other.requests.find? otherName = some (r.within limit))
    (agrees : r.Agrees limit session.store other.store) (c : RequestCall) :
    ∃ after : OpenRequest,
      (session.call name c).1.seen? = (other.call otherName c).1.seen? ∧
      (session.call name c).2.requests.find? name = some after ∧
      (other.call otherName c).2.requests.find? otherName = some (after.within limit) ∧
      (c.submits = true → after.Settled) ∧ (c.submits = false → after = r) := by
  simp only [call, held, otherHeld]
  cases c with
  | submit =>
      obtain ⟨seen, here, there⟩ := keep_alike session other name otherName .submitted
        (Request.submit_alike agrees)
      exact ⟨_, seen, here, there, fun _ => r.submit_settled session.store, nofun⟩
  | next =>
      obtain ⟨seen, here, there⟩ := keep_alike session other name otherName .next
        (Request.next_alike agrees)
      exact ⟨_, seen, here, there, fun _ => r.next_settled session.store, nofun⟩
  | execute =>
      obtain ⟨seen, here, there⟩ := keep_alike session other name otherName .executed
        (Request.execute_alike agrees)
      exact ⟨_, seen, here, there, fun _ => r.execute_settled session.store, nofun⟩
  | rows most =>
      obtain ⟨seen, here, there⟩ := keep_alike session other name otherName .rows
        (Request.rows_alike most agrees)
      refine ⟨_, seen, here, there, ?_, ?_⟩
      · intro submits
        apply r.rows_settled
        rintro rfl
        cases submits
      · intro silent
        rcases most with _ | (_ | n)
        · cases silent
        · unfold Request.rows
          split <;> rfl
        · cases silent
  | status => exact ⟨r, rfl, held, otherHeld, nofun, fun _ => rfl⟩

theorem step_call (session : Session) (name : String) (c : RequestCall) :
    session.step (.call name c) = session.call name c := rfl

/-- A step that neither calls a request nor opens one in its place leaves it alone. -/
theorem find?_step {step : Step} (calls : step.callOn? name = none)
    (opens : step.opens? ≠ some name) :
    (session.step step).2.requests.find? name = session.requests.find? name := by
  have hkeep : ∀ {α : Type} (other : String) (answer : α → CallAnswer)
      (result : Request.Result Route Store ScriptedSource Json.Value α), other ≠ name →
      (session.keep other answer result).2.requests.find? name =
        session.requests.find? name :=
    fun other answer result differ => Dictionary.find?_insert_of_ne differ _ _
  cases step with
  | emit ns designDocument viewName entry =>
      simp only [Session.step]
      cases session.store.emit ns designDocument viewName entry <;> rfl
  | direct query timeout =>
      simp only [Session.step, direct]
      cases (session.store.submit query timeout).outcome <;> rfl
  | openView other kind designDocument viewName options =>
      have differ : other ≠ name := fun same => opens (congrArg some same)
      simp only [Session.step]
      split
      · exact Dictionary.find?_insert_of_ne differ _ _
      · rfl
  | openQuery other kind route query timeout =>
      have differ : other ≠ name := fun same => opens (congrArg some same)
      exact Dictionary.find?_insert_of_ne differ _ _
  | openSource other kind source query =>
      have differ : other ≠ name := fun same => opens (congrArg some same)
      exact Dictionary.find?_insert_of_ne differ _ _
  | call other c =>
      have differ : other ≠ name := by
        rintro rfl
        simp [Step.callOn?] at calls
      simp only [Session.step, call]
      cases session.requests.find? other with
      | none => rfl
      | some request =>
          cases c with
          | status => rfl
          | _ => exact hkeep other _ _ differ
  | _ => rfl

/-- What a step does to the store, unless it is meant to change it, comes of submissions. -/
theorem step_keeps {P : Store → Prop} (keeps : Request.KeptBySubmission Route P) (step : Step)
    (still : step.mutates = false) (h : P session.store) : P (session.step step).2.store := by
  cases step with
  | direct query timeout =>
      have hkept : P (session.store.submit query timeout).state :=
        keeps .store query timeout session.store h
      simp only [Session.step, direct]
      cases (session.store.submit query timeout).outcome <;> exact hkept
  | openView other kind designDocument viewName options =>
      simp only [Session.step]
      split <;> exact h
  | call other c =>
      simp only [Session.step, call]
      cases session.requests.find? other with
      | none => exact h
      | some request =>
          cases c with
          | submit => exact Request.submit_keeps keeps h
          | next => exact Request.next_keeps keeps h
          | execute => exact Request.execute_keeps keeps h
          | rows most => exact Request.rows_keeps keeps most h
          | status => exact h
  | upsertView ns designDocument viewName reduction => cases still
  | emit ns designDocument viewName entry => cases still
  | dropDesignDocument ns designDocument => cases still
  | armSubmitFailure error => cases still
  | armStreamFailure rows => cases still
  | _ => exact h

theorem documents_kept (documents : Dictionary DesignDocument) :
    Request.KeptBySubmission Route (·.documents = documents) := by
  rintro (_ | outcome) q timeout store h
  · simpa only [Transport.submit, Store.submit_state] using h
  · exact h

/-- A store with these design documents and no failure armed. -/
structure Calm (documents : Dictionary DesignDocument) (store : Store) : Prop where
  documents : store.documents = documents
  accepts : store.failNextSubmit = none
  lasts : store.failStreamAfter = none

theorem calm_kept (documents : Dictionary DesignDocument) :
    Request.KeptBySubmission Route (Calm documents) := by
  rintro (_ | outcome) q timeout store ⟨same, accepts, lasts⟩
  · simp only [Transport.submit, Store.submit_state]
    exact ⟨same, rfl, by simp [lasts]⟩
  · exact ⟨same, accepts, lasts⟩

theorem Calm.agrees {documents : Dictionary DesignDocument} {store further : Store}
    (calm : Calm documents store) (other : Calm documents further) :
    r.Agrees limit store further := by
  rintro - (_ | outcome) -
  · apply Store.submit_congr
    · rw [calm.documents, other.documents]
    · rw [calm.accepts, other.accepts]
    · rw [calm.lasts, other.lasts]
  · rfl

theorem callOn?_eq_some {step : Step} {c : RequestCall} (h : step.callOn? name = some c) :
    step = .call name c := by
  cases step with
  | call other d =>
      by_cases same : other = name
      · subst same
        simpa [Step.callOn?] using h
      · simp [Step.callOn?, same] at h
  | _ => cases h

theorem callOn?_call (name : String) (c : RequestCall) :
    (Step.call name c).callOn? name = some c := if_pos rfl

/-- Whether a request will show the same in two sessions: it needs no store any more, or both
stores are calm with the same design documents, and remain so. -/
def Undisturbed (r : OpenRequest) (session other : Session) (steps : List Step) : Prop :=
  r.Settled ∨ (∃ documents, Calm documents session.store ∧ Calm documents other.store) ∧
    ∀ step ∈ steps, step.mutates = false

theorem Undisturbed.agrees {steps : List Step} (h : Undisturbed r session other steps) :
    r.Agrees limit session.store other.store := by
  rcases h with settled | ⟨⟨documents, calm, otherCalm⟩, -⟩
  · exact settled.agrees
  · exact calm.agrees otherCalm

/-- A step that only one of the sessions takes makes no difference. -/
theorem Undisturbed.elsewhere {step : Step} {more : List Step}
    (h : Undisturbed r session other (step :: more)) :
    Undisturbed r (session.step step).2 other more := by
  rcases h with settled | ⟨⟨documents, calm, otherCalm⟩, still⟩
  · exact Or.inl settled
  · have here : step.mutates = false := still step List.mem_cons_self
    refine Or.inr ⟨⟨documents, step_keeps (calm_kept documents) step here calm, otherCalm⟩, ?_⟩
    exact fun step hstep => still step (List.mem_cons_of_mem _ hstep)

/-- Nor does a call that is made in both. -/
theorem Undisturbed.call {c : RequestCall} {more : List Step}
    (h : Undisturbed r session other (.call name c :: more)) :
    Undisturbed r (session.call name c).2 (other.call otherName c).2 more := by
  rcases h with settled | ⟨⟨documents, calm, otherCalm⟩, still⟩
  · exact Or.inl settled
  · refine Or.inr ⟨⟨documents, ?_, ?_⟩, ?_⟩
    · exact step_keeps (calm_kept documents) (.call name c) rfl calm
    · exact step_keeps (calm_kept documents) (.call otherName c) rfl otherCalm
    · exact fun step hstep => still step (List.mem_cons_of_mem _ hstep)

/-- What is observed of a request is what is observed of the same request when only its own calls
are made, if it has been submitted on both sides, or if all is quiet. -/
theorem observed_alike (steps : List Step) (held : session.requests.find? name = some r)
    (otherHeld : other.requests.find? otherName = some (r.within limit))
    (undisturbed : Undisturbed r session other steps)
    (unopened : ∀ step ∈ steps, step.opens? ≠ some name) :
    session.observed name steps =
      other.observed otherName ((callsOn name steps).map (.call otherName)) := by
  induction steps generalizing session other r with
  | nil => rfl
  | cons step more ih =>
      have later : ∀ step ∈ more, step.opens? ≠ some name :=
        fun step hstep => unopened step (List.mem_cons_of_mem _ hstep)
      cases hcall : step.callOn? name with
      | none =>
          have hcalls : callsOn name (step :: more) = callsOn name more := by
            simp [callsOn, hcall]
          have hobserved : session.observed name (step :: more) =
              (session.step step).2.observed name more := by
            simp [observed, hcall]
          have here : (session.step step).2.requests.find? name = some r := by
            rw [find?_step hcall (unopened step List.mem_cons_self), held]
          rw [hcalls, hobserved]
          exact ih here otherHeld undisturbed.elsewhere later
      | some c =>
          obtain rfl := callOn?_eq_some hcall
          obtain ⟨after, seen, here, there, settles, waits⟩ :=
            call_alike held otherHeld undisturbed.agrees c
          have hcalls : callsOn name (.call name c :: more) = c :: callsOn name more := by
            simp [callsOn, hcall]
          have further : Undisturbed after (session.call name c).2 (other.call otherName c).2
              more := by
            cases hsubmits : c.submits with
            | true => exact Or.inl (settles hsubmits)
            | false =>
                rw [waits hsubmits]
                exact undisturbed.call
          rw [hcalls]
          simp only [observed, List.map_cons, hcall, callOn?_call, step_call, Option.bind_some, seen]
          congr 1
          exact ih here there further later

/-- Until it is submitted, a request stays as it is. -/
theorem find?_run (waiting : List Step) (held : session.requests.find? name = some r)
    (unopened : ∀ step ∈ waiting, step.opens? ≠ some name)
    (unsubmitted : ∀ c ∈ callsOn name waiting, c.submits = false) :
    (session.run waiting).2.requests.find? name = some r := by
  induction waiting generalizing session with
  | nil => exact held
  | cons step waiting ih =>
      have hfirst : (session.step step).2.requests.find? name = some r := by
        cases hcall : step.callOn? name with
        | none => rw [find?_step hcall (unopened step List.mem_cons_self), held]
        | some c =>
            obtain rfl := callOn?_eq_some hcall
            have itself : r.Agrees r.timeout session.store session.store := fun _ _ _ => rfl
            obtain ⟨after, -, here, -, -, waits⟩ := call_alike held held itself c
            have hmem : c ∈ callsOn name (.call name c :: waiting) := by simp [callsOn, hcall]
            rw [step_call, here, waits (unsubmitted c hmem)]
      apply ih hfirst
      · exact fun step hstep => unopened step (List.mem_cons_of_mem _ hstep)
      · intro c hc
        apply unsubmitted c
        simp only [callsOn, List.filterMap_cons] at hc ⊢
        split
        · exact hc
        · exact List.mem_cons_of_mem _ hc

theorem run_documents (steps : List Step) (still : ∀ step ∈ steps, step.mutates = false) :
    (session.run steps).2.store.documents = session.store.documents := by
  induction steps generalizing session with
  | nil => rfl
  | cons step steps ih =>
      have hfirst : (session.step step).2.store.documents = session.store.documents :=
        step_keeps (documents_kept _) step (still step List.mem_cons_self) rfl
      rw [← hfirst]
      exact ih fun step hstep => still step (List.mem_cons_of_mem _ hstep)

/-- Options that are accepted open a request on the store. -/
theorem openView_fresh {kind : RowKind} {designDocument viewName : String} {o : QueryOptions}
    {stage : Stage} (opened : (session.step (.openView name kind designDocument viewName o)).1 =
      .opened stage) :
    ∃ query timeout, Query.Encodes query designDocument viewName o ∧
      (session.step (.openView name kind designDocument viewName o)).2.requests.find? name =
        some (freshRequest kind query timeout) := by
  simp only [Session.step] at opened ⊢
  split at opened
  · next request signals hview =>
      obtain ⟨enc, hnew⟩ := Bucket.viewQuery_ok hview
      refine ⟨request.query, request.timeout, enc, ?_⟩
      simp only [enroll, Dictionary.find?_insert_self]
      rw [hnew]
      rfl
  · cases opened

/-- A request sees the store once. Whatever happens before and after, from the call that submits
it on it shows what it would show alone on the store of that moment, which takes nothing from
the request but its query and its way of decoding, which may be any. Submissions leave the design
documents as they are, so where no failure is armed and nothing else is changed, it shows from the
first call on what it would show alone. -/
theorem snapshot {kind : RowKind} {query : EncodedQuery} {timeout : Duration}
    (opened : session.requests.find? name = some (freshRequest kind query timeout)) :
    (∀ waiting first more, (∀ step ∈ waiting ++ more, step.opens? ≠ some name) →
      (∀ c ∈ callsOn name waiting, c.submits = false) → first.submits = true →
      let moment := (session.run waiting).2
      moment.observed name (.call name first :: more) =
        delivered kind query moment.store (first :: callsOn name more)) ∧
    ∀ steps, (∀ step ∈ steps, step.mutates = false) →
      (session.run steps).2.store.documents = session.store.documents ∧
      (session.store.failNextSubmit = none → session.store.failStreamAfter = none →
        (∀ step ∈ steps, step.opens? ≠ some name) →
        session.observed name steps = delivered kind query session.store (callsOn name steps)) := by
  have withoutTimeout : ∀ store,
      (alone store (freshRequest kind query ⟨0⟩)).requests.find? "request" =
        some ((freshRequest kind query timeout).within ⟨0⟩) := fun _ => rfl
  constructor
  · intro waiting first more unopened unsubmitted submits moment
    have before : ∀ step ∈ waiting, step.opens? ≠ some name :=
      fun step hstep => unopened step (List.mem_append_left _ hstep)
    have later : ∀ step ∈ more, step.opens? ≠ some name :=
      fun step hstep => unopened step (List.mem_append_right _ hstep)
    have held : moment.requests.find? name = some (freshRequest kind query timeout) :=
      find?_run waiting opened before unsubmitted
    have agrees : (freshRequest kind query timeout).Agrees ⟨0⟩ moment.store moment.store := by
      rintro - handle hheld
      cases hheld
      exact Store.submit_congr rfl rfl rfl ⟨0⟩ timeout
    -- After the submission the request is settled, so the two sessions may part.
    obtain ⟨after, seen, here, there, settles, -⟩ :=
      call_alike held (withoutTimeout moment.store) agrees first
    simp only [observed, delivered, List.map_cons, callOn?_call, step_call, Option.bind_some, seen]
    congr 1
    exact observed_alike more here there (Or.inl (settles submits)) later
  · intro steps still
    refine ⟨run_documents steps still, ?_⟩
    intro accepts lasts unopened
    apply observed_alike steps opened (withoutTimeout session.store) _ unopened
    exact Or.inr ⟨⟨session.store.documents, ⟨rfl, accepts, lasts⟩, ⟨rfl, accepts, lasts⟩⟩, still⟩

section Sample

/-- Two requests for all rows of an empty view. -/
def twoRequests : Session :=
  let session : Session := {
    bucket := ⟨"default", {}⟩
    store := Store.ofHistory [.upsertView .production "people" "by_age" none] }
  let opened := (session.step (.openView "a" .row "people" "by_age" {})).2
  (opened.step (.openView "b" .numbered "people" "by_age" {})).2

/-- What is emitted once a request is submitted, and what the other request does, is not seen. -/
theorem snapshot_twoRequests :
    let more : List Step := [
      .emit .production "people" "by_age" ⟨"x", .null, .null⟩, .call "b" .execute,
      .armStreamFailure 0, .call "a" .execute]
    let calls : List Step := [
      .call "b" .next, .call "a" .submit, .call "b" .execute, .call "a" .next]
    ∃ query timeout,
      twoRequests.requests.find? "b" = some (freshRequest .numbered query timeout) ∧
      Query.Encodes query "people" "by_age" {} ∧
      twoRequests.observed "b" (.call "b" .submit :: more) =
        delivered .numbered query twoRequests.store [.submit, .execute] ∧
      twoRequests.observed "b" calls =
        delivered .numbered query twoRequests.store [.next, .execute] := by
  intro more calls
  obtain ⟨query, timeout, encodes, opened⟩ :
      ∃ query timeout, Query.Encodes query "people" "by_age" {} ∧
        twoRequests.requests.find? "b" = some (freshRequest .numbered query timeout) :=
    openView_fresh rfl
  obtain ⟨frozen, still⟩ := snapshot opened
  refine ⟨query, timeout, opened, encodes, ?_, ?_⟩
  · exact frozen [] .submit more (by simp [more, Step.opens?]) nofun rfl
  · exact (still calls (by simp [calls, Step.mutates])).2 rfl rfl (by simp [calls, Step.opens?])

end Sample

end Session

end DocViews
