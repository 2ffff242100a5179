import DocViews.Proofs.Session.Snapshot

/-!
What the steps of a session tell of the store, without a look at any request: which operations
are performed on it, and what is handed over by them. A request waits from the step that opens
it to the first call that asks for rows, which hands over its query.
-/

namespace DocViews

/-- A query with the time that its answer may take, as they are handed over. -/
abbrev Handed := EncodedQuery × Duration

/-- The request that a step opens, by its name and what it will hand over to the store.
Options that are refused open nothing. -/
def Step.opening? (b : Bucket) : Step → Option (String × Option Handed)
  | .openView name _ designDocument viewName options =>
      match b.prepare designDocument viewName options with
      | .ok (query, timeout) => some (name, some (query.encoded, timeout))
      | .error _ => none
  | .openQuery name _ .store query timeout => some (name, some (query, timeout))
  | .openQuery name _ (.script _) _ _ => some (name, none)
  | .openSource name _ _ _ => some (name, none)
  | _ => none

/-- Whether a step is a call that submits the request of this name. -/
def Step.submits (name : String) (step : Step) : Bool :=
  (step.callOn? name).any RequestCall.submits

/-- What the request of this name has still to hand over, by the steps in the past, of which
the latest comes first. -/
def waiting? (b : Bucket) (name : String) : List Step → Option Handed
  | [] => none
  | step :: earlier =>
      match step.opening? b with
      | some (opened, handed?) => if opened = name then handed? else waiting? b name earlier
      | none => if step.submits name then none else waiting? b name earlier

def Handed.operation (handed : Handed) : Store.Operation := .submit handed.1 handed.2

/-- What a step does to the store after these steps in the past. -/
def Step.operation? (b : Bucket) (past : List Step) : Step → Option Store.Operation
  | .upsertView ns designDocument viewName reduction =>
      some (.upsertView ns designDocument viewName reduction)
  | .emit ns designDocument viewName entry => some (.emit ns designDocument viewName entry)
  | .dropDesignDocument ns designDocument => some (.dropDesignDocument ns designDocument)
  | .armSubmitFailure error => some (.armSubmitFailure error)
  | .armStreamFailure rows => some (.armStreamFailure rows)
  | .direct query timeout => some (.submit query timeout)
  | .call name c => if c.submits then (waiting? b name past).map Handed.operation else none
  | _ => none

/-- What steps do to the store, one after another. -/
def operations (b : Bucket) : List Step → List Step → List Store.Operation
  | _, [] => []
  | past, step :: more => (step.operation? b past).toList ++ operations b (step :: past) more

/-- What is handed over by an operation. -/
def Store.Operation.handed? : Store.Operation → Option Handed
  | .submit query timeout => some (query, timeout)
  | _ => none

section Steps

variable {b other : Bucket} {name : String} {past : List Step} {step : Step}

theorem Step.submits_call (called name : String) (c : RequestCall) :
    (Step.call called c).submits name = (decide (called = name) && c.submits) := by
  unfold Step.submits Step.callOn?
  by_cases same : called = name <;> simp [same]

/-- A step that opens a request is no call. -/
theorem Step.submits_of_opening {opened : String × Option Handed}
    (opens : step.opening? b = some opened) (name : String) : step.submits name = false := by
  cases step with
  | call other c => cases opens
  | _ => rfl

theorem waiting?_opened {handed? : Option Handed}
    (opens : step.opening? b = some (name, handed?)) (past : List Step) :
    waiting? b name (step :: past) = handed? := by
  simp [waiting?, opens]

theorem waiting?_submitted (submits : step.submits name = true) (past : List Step) :
    waiting? b name (step :: past) = none := by
  cases opens : step.opening? b with
  | none => simp [waiting?, opens, submits]
  | some opened =>
      rw [Step.submits_of_opening opens name] at submits
      cases submits

/-- A step that does neither is no matter to the request. -/
theorem waiting?_quiet (unopened : ∀ handed?, step.opening? b ≠ some (name, handed?))
    (silent : step.submits name = false) (past : List Step) :
    waiting? b name (step :: past) = waiting? b name past := by
  rw [waiting?]
  cases opens : step.opening? b with
  | none => simp [silent]
  | some opened =>
      obtain ⟨found, handed?⟩ := opened
      have differ : found ≠ name := by
        rintro rfl
        exact unopened handed? opens
      exact if_neg differ

/-- A request waits from the step that opens it to the first call that asks for rows, unless
another request takes its name. -/
theorem waiting?_eq_some {handed : Handed} :
    waiting? b name past = some handed ↔ ∃ since opening before,
      past = since ++ opening :: before ∧ opening.opening? b = some (name, some handed) ∧
        ∀ step ∈ since, (∀ handed?, step.opening? b ≠ some (name, handed?)) ∧
          step.submits name = false := by
  constructor
  · intro waits
    induction past with
    | nil => cases waits
    | cons step earlier ih =>
        by_cases opens : ∃ handed?, step.opening? b = some (name, handed?)
        · obtain ⟨handed?, opens⟩ := opens
          rw [waiting?_opened opens] at waits
          subst waits
          exact ⟨[], step, earlier, rfl, opens, List.forall_mem_nil _⟩
        · have unopened : ∀ handed?, step.opening? b ≠ some (name, handed?) :=
            fun handed? found => opens ⟨handed?, found⟩
          cases submits : step.submits name with
          | true =>
              rw [waiting?_submitted submits] at waits
              cases waits
          | false =>
              rw [waiting?_quiet unopened submits] at waits
              obtain ⟨since, opening, before, rfl, opened, quiet⟩ := ih waits
              refine ⟨step :: since, opening, before, rfl, opened, fun s hs => ?_⟩
              rcases List.mem_cons.mp hs with rfl | hs
              · exact ⟨unopened, submits⟩
              · exact quiet s hs
  · rintro ⟨since, opening, before, rfl, opened, quiet⟩
    induction since with
    | nil => exact waiting?_opened opened before
    | cons step since ih =>
        obtain ⟨unopened, silent⟩ := quiet step List.mem_cons_self
        rw [List.cons_append, waiting?_quiet unopened silent]
        exact ih fun s hs => quiet s (List.mem_cons_of_mem _ hs)

/-- Once a call has asked for rows, nothing is left until the name is given anew. -/
theorem waiting?_since_submission (submits : step.submits name = true) (since : List Step)
    (unopened : ∀ s ∈ since, ∀ handed?, s.opening? b ≠ some (name, handed?)) :
    waiting? b name (since ++ step :: past) = none := by
  induction since with
  | nil => exact waiting?_submitted submits past
  | cons s since ih =>
      rw [List.cons_append]
      cases again : s.submits name with
      | true => exact waiting?_submitted again _
      | false =>
          rw [waiting?_quiet (unopened s List.mem_cons_self) again]
          exact ih fun t ht => unopened t (List.mem_cons_of_mem _ ht)

/-- The bucket settles the timeout of a request: what the query itself says in microseconds, or
else what is configured. -/
theorem Step.opening?_timeout {kind : RowKind} {designDocument viewName opened : String}
    {options : QueryOptions} {handed : Handed}
    (opens : (Step.openView name kind designDocument viewName options).opening? b =
      some (opened, some handed)) :
    match handed.1.natural? QueryField.timeout with
    | some micros => options.timeout.isSome ∧ handed.2 = .ofMicroseconds micros.toNat
    | none => options.timeout = none ∧ handed.2 = b.config.viewTimeout := by
  cases hbuild : Query.build b.name designDocument viewName options with
  | error e => simp [opening?, Bucket.prepare, hbuild, bind, Except.bind] at opens
  | ok query =>
      obtain ⟨read, given⟩ := Query.build_timeout hbuild
      simp only [opening?, Bucket.prepare, hbuild, bind, Except.bind, pure, Except.pure,
        Option.some.injEq, Prod.mk.injEq] at opens
      obtain ⟨-, rfl⟩ := opens
      cases htimeout : query.encoded.natural? QueryField.timeout with
      | none =>
          rw [htimeout] at read
          have unset : query.timeoutMicros = none := read.symm
          rw [unset] at given
          refine ⟨by simpa using given.symm, ?_⟩
          simp [Query.timeout, unset]
      | some micros =>
          rw [htimeout] at read
          have set : query.timeoutMicros = some micros.toNat := read.symm
          rw [set] at given
          refine ⟨given.symm, ?_⟩
          simp [Query.timeout, set]

/-- What a step opens does not depend on the configuration, but for the timeout. -/
theorem Step.opening?_config (same : other.name = b.name) (step : Step) :
    (step.opening? other).map (fun opened => (opened.1, opened.2.map Prod.fst)) =
      (step.opening? b).map (fun opened => (opened.1, opened.2.map Prod.fst)) := by
  cases step with
  | openView name kind designDocument viewName options =>
      simp only [opening?, Bucket.prepare, same]
      cases Query.build b.name designDocument viewName options <;> rfl
  | openQuery name kind route query timeout => cases route <;> rfl
  | _ => rfl

theorem waiting?_config (same : other.name = b.name) (name : String) (past : List Step) :
    (waiting? other name past).map Prod.fst = (waiting? b name past).map Prod.fst := by
  induction past with
  | nil => rfl
  | cons step earlier ih =>
      have opens := step.opening?_config same
      rw [waiting?, waiting?]
      cases here : step.opening? b with
      | none =>
          rw [here] at opens
          have there : step.opening? other = none := by simpa using opens
          simp only [there]
          split
          · rfl
          · exact ih
      | some opened =>
          rw [here] at opens
          obtain ⟨found, there, alike⟩ := Option.map_eq_some_iff.mp opens
          obtain ⟨hname, hquery⟩ := Prod.mk.inj alike
          simp only [there, hname]
          split
          · exact hquery
          · exact ih

/-- What a call hands over is what has waited for it. -/
theorem operation?_call (past : List Step) (name : String) (c : RequestCall) :
    (Step.operation? b past (.call name c)).bind Store.Operation.handed? =
      if c.submits then waiting? b name past else none := by
  rw [Step.operation?]
  split
  · cases waiting? b name past <;> rfl
  · rfl

/-- Nor do the queries that are handed over. -/
theorem operations_config (same : other.name = b.name) (past steps : List Step) :
    ((operations other past steps).filterMap Store.Operation.handed?).map Prod.fst =
      ((operations b past steps).filterMap Store.Operation.handed?).map Prod.fst := by
  induction steps generalizing past with
  | nil => rfl
  | cons step more ih =>
      have here : ((step.operation? other past).bind Store.Operation.handed?).map Prod.fst =
          ((step.operation? b past).bind Store.Operation.handed?).map Prod.fst := by
        cases step with
        | call name c =>
            rw [operation?_call, operation?_call]
            split
            · exact waiting?_config same name past
            · rfl
        | _ => rfl
      have listed : ∀ operation? : Option Store.Operation,
          (operation?.toList.filterMap Store.Operation.handed?).map Prod.fst =
            ((operation?.bind Store.Operation.handed?).map Prod.fst).toList := by
        rintro (_ | op)
        · rfl
        · cases hhanded : op.handed? <;> simp [hhanded]
      simp only [operations, List.filterMap_append, List.map_append, listed, here, ih]

end Steps

namespace Store

/-- The record of a store tells what was handed over, and the time given to the last of it. -/
theorem foldl_perform_record (ops : List Operation) (store : Store) :
    (ops.foldl perform store).submitted =
        store.submitted ++ (ops.filterMap Operation.handed?).map (·.1.toJson) ∧
      (ops.foldl perform store).lastTimeout =
        ((ops.filterMap Operation.handed?).getLast?.map Prod.snd).or store.lastTimeout := by
  induction ops generalizing store with
  | nil => simp
  | cons op ops ih =>
      obtain ⟨submitted, lastTimeout⟩ := ih (store.perform op)
      rw [List.foldl_cons, submitted, lastTimeout]
      cases op with
      | submit query timeout =>
          have recorded := submit_state store query timeout
          simp only [perform, recorded, List.filterMap_cons, Operation.handed?]
          refine ⟨by simp, ?_⟩
          rw [List.getLast?_cons]
          cases (ops.filterMap Operation.handed?).getLast? <;> rfl
      | emit ns designDocument viewName entry =>
          simp only [perform, List.filterMap_cons, Operation.handed?]
          cases hemit : store.emit ns designDocument viewName entry with
          | error error => exact ⟨rfl, rfl⟩
          | ok grown =>
              obtain ⟨views, index, -, -, rfl⟩ := emit_ok hemit
              exact ⟨rfl, rfl⟩
      | _ => exact ⟨rfl, rfl⟩

end Store

end DocViews
