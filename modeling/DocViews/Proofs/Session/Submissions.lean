import DocViews.Proofs.Request.Handover
import DocViews.Proofs.Session.Waiting

/-!
What of a session reaches the store. Beside the operations that the session is there for,
these are the submissions: the direct ones, and that of each request, once, by the first call
that asks for rows. They are the ones that the steps tell of.
-/

namespace DocViews

/-- What a request on the store has still to hand over to it. -/
def Request.toHand? (r : OpenRequest) : Option Handed :=
  match r.stage, r.transport with
  | .notStarted, some .store => some (r.query, r.timeout)
  | _, _ => none

namespace Request

theorem toHand?_of_started {r : OpenRequest} (started : r.stage ≠ .notStarted) :
    r.toHand? = none := by
  unfold toHand?
  split
  · next unsubmitted held => exact absurd unsubmitted started
  · rfl

theorem Settled.toHand? {r : OpenRequest} (settled : r.Settled) : r.toHand? = none := by
  unfold Request.toHand?
  split
  · next unsubmitted held => simp [settled unsubmitted] at held
  · rfl

theorem new_sound (route : Route) (query : EncodedQuery) (timeout : Duration) :
    (new route query timeout : OpenRequest).Sound :=
  (Origin.transport route timeout : Origin Route ScriptedSource).sound query

/-- A stream of rows that is not polled leaves everything as it is. -/
theorem rows_unpolled (r : OpenRequest) (store : Store) :
    (r.rows (some 0) store).request = r ∧ (r.rows (some 0) store).state = store := by
  unfold rows
  split <;> exact ⟨rfl, rfl⟩

/-- A call after which nothing is left to hand over has handed over what there was. -/
theorem Handover.store {r after : OpenRequest} {store final : Store} {signals : List Signal}
    (handover : Handover r store signals after final) (settled : after.Settled) :
    final = (r.toHand?.map Handed.operation).elim store store.perform := by
  cases handover with
  | waiting =>
      rw [settled.toHand?]
      rfl
  | started before =>
      rw [toHand?_of_started before]
      rfl
  | @sent _ _ _ _ _ handle _ _ unsubmitted held sent =>
      have submitted : final = (Transport.submit handle r.query r.timeout store).state := by
        rw [sent]
      cases handle with
      | store => simp [toHand?, unsubmitted, held, submitted, Handed.operation, Store.perform,
          Transport.submit]
      | script outcome => simp [toHand?, unsubmitted, held, submitted, Transport.submit]

end Request

/-- Opening a request prepares its query, and no more. -/
theorem Bucket.viewQuery_prepare {κ σ ρ : Type} [RowType ρ] (b : Bucket) (transport : κ)
    (designDocument viewName : String) (options : QueryOptions) :
    (b.viewQuery transport designDocument viewName options :
        Except ViewError (Request κ σ ρ × List Signal)) =
      (b.prepare designDocument viewName options).map fun (query, timeout) =>
        (.new transport query.encoded timeout, [b.built query]) := by
  unfold viewQuery
  cases b.prepare designDocument viewName options <;> rfl

namespace Session

variable {b : Bucket} {past : List Step} {session after : Session} {name : String}

/-- What the steps in the past tell of the requests that a session holds. -/
structure Tracks (b : Bucket) (past : List Step) (session : Session) : Prop where
  bucket : session.bucket = b
  sound : ∀ name r, session.requests.find? name = some r → r.Sound
  waiting : ∀ name, (session.requests.find? name).bind Request.toHand? = waiting? b name past

namespace Tracks

theorem initially (b : Bucket) (store : Store) : Tracks b [] { bucket := b, store := store } where
  bucket := rfl
  sound name r held := by cases held
  waiting name := rfl

section Requests

variable {step : Step} {r : OpenRequest} {c : RequestCall}

/-- A step after which the session holds the same requests, and as many of them wait. -/
theorem same (tracks : Tracks b past session) (bucket : after.bucket = session.bucket)
    (requests : after.requests = session.requests)
    (still : ∀ name, waiting? b name (step :: past) = waiting? b name past) :
    Tracks b (step :: past) after where
  bucket := bucket.trans tracks.bucket
  sound := requests ▸ tracks.sound
  waiting name := by rw [requests, tracks.waiting, still]

/-- A step that neither opens a request nor submits one. -/
theorem quiet (tracks : Tracks b past session) (opens : step.opening? b = none)
    (submits : ∀ name, step.submits name = false) (bucket : after.bucket = session.bucket)
    (requests : after.requests = session.requests) : Tracks b (step :: past) after := by
  have unopened : ∀ name handed?, step.opening? b ≠ some (name, handed?) := by
    simp [opens]
  exact tracks.same bucket requests fun name => waiting?_quiet (unopened name) (submits name) past

/-- A step that puts a request under a name. -/
theorem put (tracks : Tracks b past session) (bucket : after.bucket = session.bucket)
    (requests : after.requests = session.requests.insert name r) (sound : r.Sound)
    (here : r.toHand? = waiting? b name (step :: past))
    (elsewhere : ∀ other, name ≠ other →
      waiting? b other (step :: past) = waiting? b other past) :
    Tracks b (step :: past) after where
  bucket := bucket.trans tracks.bucket
  sound other held hheld := by
    rw [requests, Dictionary.find?_insert] at hheld
    split at hheld
    · cases hheld
      exact sound
    · exact tracks.sound other held hheld
  waiting other := by
    rw [requests, Dictionary.find?_insert]
    split
    · next same =>
        subst same
        exact here
    · next differ => rw [elsewhere other differ, tracks.waiting other]

theorem enroll (tracks : Tracks b past session)
    (opens : step.opening? b = some (name, r.toHand?)) (sound : r.Sound) (kind : RowKind)
    (signals : List Signal) :
    Tracks b (step :: past) (session.enroll name kind r signals).2 := by
  have sound' : { r with decode := kind.decode }.Sound :=
    ⟨sound.notStarted, sound.streaming, sound.done⟩
  refine tracks.put rfl rfl sound' (waiting?_opened opens past).symm fun other differ => ?_
  apply waiting?_quiet
  · simp [opens, differ]
  · exact Step.submits_of_opening opens other

/-- A call does not matter to requests of other names. -/
theorem waiting?_elsewhere {other : String} (differ : name ≠ other) :
    waiting? b other (.call name c :: past) = waiting? b other past :=
  waiting?_quiet (by simp [Step.opening?]) (by simp [Step.submits_call, differ]) past

/-- A call that does not ask for rows. -/
theorem silent (submits : c.submits = false) (other : String) :
    waiting? b other (.call name c :: past) = waiting? b other past :=
  waiting?_quiet (by simp [Step.opening?]) (by simp [Step.submits_call, submits]) past

/-- A call that asks for rows leaves nothing to hand over, and hands over what there was. -/
theorem keep (tracks : Tracks b past session) (held : session.requests.find? name = some r)
    (submits : c.submits = true) {α : Type} (answer : α → CallAnswer)
    {result : Request.Result Route Store ScriptedSource Json.Value α}
    (shows : r.Shows result.request result.signals) (settled : result.request.Settled)
    (handover : Request.Effect.Of Request.Handover r session.store result) :
    Tracks b (.call name c :: past) (session.keep name answer result).2 ∧
      (session.keep name answer result).2.store =
        ((Step.call name c).operation? b past).elim session.store session.store.perform := by
  have called : (Step.call name c).submits name = true := by simp [Step.submits_call, submits]
  have here : result.request.toHand? = waiting? b name (.call name c :: past) := by
    rw [settled.toHand?, waiting?_submitted called]
  have waits : r.toHand? = waiting? b name past := by
    simpa [held] using tracks.waiting name
  constructor
  · have sound := shows.sound (tracks.sound name r held)
    exact tracks.put rfl rfl sound here fun other differ => waiting?_elsewhere differ
  · simp only [Step.operation?, if_pos submits, ← waits]
    exact handover.store settled

/-- Each call on a request does to the store what the steps tell. -/
theorem call (tracks : Tracks b past session) (name : String) (c : RequestCall) :
    Tracks b (.call name c :: past) (session.call name c).2 ∧
      (session.call name c).2.store =
        ((Step.call name c).operation? b past).elim session.store session.store.perform := by
  simp only [Session.call]
  cases held : session.requests.find? name with
  | none =>
      have waits : waiting? b name past = none := by
        simpa [held] using (tracks.waiting name).symm
      refine ⟨tracks.same rfl rfl fun other => ?_, by simp [Step.operation?, waits]⟩
      by_cases differ : name = other
      · subst differ
        simp [waiting?, Step.opening?, waits]
      · exact waiting?_elsewhere differ
  | some r =>
      have sound := tracks.sound name r held
      cases c with
      | submit =>
          exact tracks.keep held rfl _ (Request.submit_shows sound _) (r.submit_settled _)
            (Request.Handover.additive.submit sound _)
      | next =>
          exact tracks.keep held rfl _ (Request.next_shows sound _) (r.next_settled _)
            (Request.Handover.additive.next sound _)
      | execute =>
          exact tracks.keep held rfl _ (Request.Effect.shows_additive.execute sound _)
            (r.execute_settled _) (Request.Handover.additive.execute sound _)
      | rows most =>
          by_cases polled : most = some 0
          · subst polled
            obtain ⟨unchanged, unmoved⟩ := r.rows_unpolled session.store
            have waits : r.toHand? = waiting? b name past := by
              simpa [held] using tracks.waiting name
            have sound' : (r.rows (some 0) session.store).request.Sound := by
              rw [unchanged]
              exact sound
            have here : (r.rows (some 0) session.store).request.toHand? =
                waiting? b name (.call name (.rows (some 0)) :: past) := by
              rw [unchanged, silent rfl, waits]
            exact ⟨tracks.put rfl rfl sound' here fun other _ => silent rfl other, unmoved⟩
          · have submits : (RequestCall.rows most).submits = true := by
              rcases most with _ | (_ | n)
              · rfl
              · exact absurd rfl polled
              · rfl
            exact tracks.keep held submits _ (Request.Effect.shows_additive.rows sound most _)
              (r.rows_settled polled _) (Request.Handover.additive.rows sound most _)
      | status => exact ⟨tracks.same rfl rfl (silent rfl), rfl⟩

end Requests

/-- Each step does to the store what the steps tell. -/
theorem step (tracks : Tracks b past session) (step : Step) :
    Tracks b (step :: past) (session.step step).2 ∧
      (session.step step).2.store =
        (step.operation? b past).elim session.store session.store.perform := by
  cases step with
  | emit ns designDocument viewName entry =>
      simp only [Session.step, Step.operation?, Option.elim_some, Store.perform]
      cases session.store.emit ns designDocument viewName entry with
      | ok grown => exact ⟨tracks.quiet rfl (fun _ => rfl) rfl rfl, rfl⟩
      | error error => exact ⟨tracks.quiet rfl (fun _ => rfl) rfl rfl, rfl⟩
  | direct query timeout =>
      simp only [Session.step, direct]
      cases (session.store.submit query timeout).outcome with
      | ok source => exact ⟨tracks.quiet rfl (fun _ => rfl) rfl rfl, rfl⟩
      | error error => exact ⟨tracks.quiet rfl (fun _ => rfl) rfl rfl, rfl⟩
  | openView name kind designDocument viewName options =>
      simp only [Session.step, Bucket.viewQuery_prepare, tracks.bucket]
      cases prepared : b.prepare designDocument viewName options with
      | error error =>
          have opens : (Step.openView name kind designDocument viewName options).opening? b =
              none := by
            simp only [Step.opening?, prepared]
          exact ⟨tracks.quiet opens (fun _ => rfl) rfl rfl, rfl⟩
      | ok result =>
          have opens : (Step.openView name kind designDocument viewName options).opening? b =
              some (name, some (result.1.encoded, result.2)) := by
            simp only [Step.opening?, prepared]
          exact ⟨tracks.enroll opens (Request.new_sound ..) kind _, rfl⟩
  | openQuery name kind route query timeout =>
      cases route with
      | store => exact ⟨tracks.enroll rfl (Request.new_sound ..) kind _, rfl⟩
      | script outcome => exact ⟨tracks.enroll rfl (Request.new_sound ..) kind _, rfl⟩
  | openSource name kind source query =>
      have sound : (Request.ofSource source query : OpenRequest).Sound :=
        (Request.Origin.source source : Request.Origin Route ScriptedSource).sound query
      exact ⟨tracks.enroll rfl sound kind _, rfl⟩
  | call name c => exact tracks.call name c
  | _ => exact ⟨tracks.quiet rfl (fun _ => rfl) rfl rfl, rfl⟩

/-- A session does to the store what its steps tell, and nothing else. -/
theorem run (tracks : Tracks b past session) (steps : List Step) :
    (session.run steps).2.store = (operations b past steps).foldl Store.perform session.store := by
  induction steps generalizing session past with
  | nil => rfl
  | cons step more ih =>
      obtain ⟨further, hstore⟩ := tracks.step step
      have hmore := ih further
      rw [hstore] at hmore
      simp only [Session.run, operations, List.foldl_append, hmore]
      cases step.operation? b past <;> rfl

end Tracks

/-- Opening a request, with options that are accepted or refused, and a call that asks for no
rows change nothing of the store. -/
theorem step_unmoved (session : Session) {step : Step}
    (h : step.opens?.isSome ∨ ∃ name c, step = .call name c ∧ c.submits = false) :
    (session.step step).2.store = session.store := by
  rcases h with opens | ⟨name, c, rfl, silent⟩
  · cases step with
    | openView name kind designDocument viewName options =>
        simp only [Session.step]
        split <;> rfl
    | openQuery name kind route query timeout => rfl
    | openSource name kind source query => rfl
    | _ => cases opens
  · simp only [Session.step, Session.call]
    cases session.requests.find? name with
    | none => rfl
    | some r =>
        cases c with
        | status => rfl
        | rows most =>
            rcases most with _ | (_ | n)
            · cases silent
            · exact (r.rows_unpolled session.store).2
            · cases silent
        | _ => cases silent

/-- What reaches the store, from a session that begins without requests. It does to the store
what its steps tell: besides the operations that it is there for, the record grows by what is
handed over, in this order. Opening a request and not asking it for rows change nothing. A
call hands over the query of the request that was opened last under its name, if that one is
on the store and the call is the first that asks it for rows; later calls hand over nothing.
Of a request that the bucket has opened, the timeout is the one that the query says, in
microseconds, or the configured one if the options set none. The record does not depend on the
configuration of the bucket. -/
theorem run_submissions (b : Bucket) (store : Store) (steps : List Step) :
    let session : Session := { bucket := b, store := store }
    let final := (session.run steps).2.store
    let handed := (operations b [] steps).filterMap Store.Operation.handed?
    final = (operations b [] steps).foldl Store.perform store ∧
      final.submitted = store.submitted ++ handed.map (·.1.toJson) ∧
      final.lastTimeout = (handed.getLast?.map Prod.snd).or store.lastTimeout ∧
      (∀ (other : Session) (step : Step),
        (step.opens?.isSome ∨ ∃ name c, step = .call name c ∧ c.submits = false) →
        (other.step step).2.store = other.store) ∧
      (∀ past name c query timeout,
        Step.operation? b past (.call name c) = some (.submit query timeout) ↔
          c.submits = true ∧ ∃ since opening before, past = since ++ opening :: before ∧
            opening.opening? b = some (name, some (query, timeout)) ∧
            ∀ step ∈ since, (∀ handed?, step.opening? b ≠ some (name, handed?)) ∧
              step.submits name = false) ∧
      (∀ past since name c again, c.submits = true →
        (∀ step ∈ since, ∀ handed?, step.opening? b ≠ some (name, handed?)) →
        Step.operation? b (since ++ .call name c :: past) (.call name again) = none) ∧
      (∀ name kind designDocument viewName options opened query timeout,
        (Step.openView name kind designDocument viewName options).opening? b =
          some (opened, some (query, timeout)) →
        match query.natural? QueryField.timeout with
        | some micros => options.timeout.isSome ∧ timeout = .ofMicroseconds micros.toNat
        | none => options.timeout = none ∧ timeout = b.config.viewTimeout) ∧
      ∀ other : Bucket, other.name = b.name →
        (({ session with bucket := other }).run steps).2.store.submitted = final.submitted := by
  intro session final handed
  have told : final = (operations b [] steps).foldl Store.perform store :=
    (Tracks.initially b store).run steps
  obtain ⟨submitted, lastTimeout⟩ :=
    Store.foldl_perform_record (operations b [] steps) store
  refine ⟨told, told ▸ submitted, told ▸ lastTimeout, fun other _ => other.step_unmoved, ?_, ?_,
    ?_, ?_⟩
  · intro past name c query timeout
    rw [← waiting?_eq_some, Step.operation?]
    cases c.submits with
    | false => simp
    | true =>
        cases waiting? b name past with
        | none => simp
        | some waits => simp [Handed.operation, Prod.ext_iff]
  · intro past since name c again submits unopened
    have called : (Step.call name c).submits name = true := by simp [Step.submits_call, submits]
    simp [Step.operation?, waiting?_since_submission called since unopened]
  · intro name kind designDocument viewName options opened query timeout opens
    exact Step.opening?_timeout opens
  · intro other same
    have record := (Store.foldl_perform_record (operations other [] steps) store).1
    have toldOther := (Tracks.initially other store).run steps
    rw [toldOther, record, told, submitted]
    have queries := congrArg (List.map EncodedQuery.toJson) (operations_config same [] steps)
    rw [List.map_map, List.map_map] at queries
    exact congrArg (store.submitted ++ ·) queries

def twoSeconds : QueryOptions where
  timeout := some (.duration (.ofSeconds 2))

/-- What a bucket makes of such options. -/
def byAge (o : QueryOptions) : EncodedQuery :=
  (Query.build "default" "people" "by_age" o).toOption.elim .empty (·.encoded)

/-- Of two requests that a bucket has opened, one has a timeout of its own. Nothing is handed over
until they are asked for rows, and then each once, with its timeout. -/
theorem run_submissions_twoRequests :
    let b : Bucket := ⟨"default", {}⟩
    let timed : Step := .openView "a" .row "people" "by_age" twoSeconds
    let plain : Step := .openView "b" .row "people" "by_age" {}
    let first : List Step := [timed, plain, .call "b" (.rows (some 0)), .call "a" .next,
      .call "a" .execute]
    let final (steps : List Step) := (({ bucket := b } : Session).run steps).2.store
    ∃ timeout configured,
      timed.opening? b = some ("a", some (byAge twoSeconds, timeout)) ∧
      plain.opening? b = some ("b", some (byAge {}, configured)) ∧
      timeout = .ofMicroseconds 2000000 ∧ configured = b.config.viewTimeout ∧
      (final first).submitted = [(byAge twoSeconds).toJson] ∧
      (final first).lastTimeout = some timeout ∧
      (final (first ++ [.call "b" .next])).submitted =
        [(byAge twoSeconds).toJson, (byAge {}).toJson] ∧
      (final (first ++ [.call "b" .next])).lastTimeout = some configured := by
  intro b timed plain first final
  obtain ⟨-, submitted, lastTimeout, -, -, -, timeouts, -⟩ := run_submissions b {} first
  obtain ⟨-, submittedThen, lastThen, -⟩ := run_submissions b {} (first ++ [.call "b" .next])
  have sent : (byAge twoSeconds).natural? QueryField.timeout = some 2000000 := by decide +kernel
  have unsent : (byAge {}).natural? QueryField.timeout = none := by decide +kernel
  refine ⟨_, _, rfl, rfl, ?_, ?_, submitted, lastTimeout, submittedThen, lastThen⟩
  · have own := timeouts "a" .row "people" "by_age" twoSeconds "a" (byAge twoSeconds) _ rfl
    rw [sent] at own
    exact own.2
  · have own := timeouts "b" .row "people" "by_age" {} "b" (byAge {}) _ rfl
    rw [unsent] at own
    exact own.2

end Session

end DocViews
