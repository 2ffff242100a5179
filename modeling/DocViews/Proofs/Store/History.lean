import DocViews.Store

/-!
Histories of a store: everything that is done to it from the empty store on, one operation
after another. Each operation is told by what it changes: at most one design document, and
the record of submissions and armed failures.
-/

namespace DocViews.Store

inductive Operation where
  | upsertView (ns : Namespace) (designDocument viewName : String) (reduction : Option Reduction)
  | emit (ns : Namespace) (designDocument viewName : String) (entry : Entry)
  | dropDesignDocument (ns : Namespace) (designDocument : String)
  | armSubmitFailure (error : ViewError)
  | armStreamFailure (rows : Nat)
  | submit (query : EncodedQuery) (timeout : Duration)

/-- The store after an operation. One that fails leaves it as it was. -/
def perform (store : Store) : Operation → Store
  | .upsertView ns designDocument viewName reduction =>
      store.upsertView ns designDocument viewName reduction
  | .emit ns designDocument viewName entry =>
      match store.emit ns designDocument viewName entry with
      | .ok grown => grown
      | .error _ => store
  | .dropDesignDocument ns designDocument => (store.dropDesignDocument ns designDocument).2
  | .armSubmitFailure error => store.armSubmitFailure error
  | .armStreamFailure rows => store.armStreamFailure rows
  | .submit query timeout => (store.submit query timeout).state

/-- The store that was empty at first and has this history. -/
def ofHistory (history : List Operation) : Store := history.foldl perform {}

/-- The design document that an operation is performed on, if it is on one. -/
def Operation.target? : Operation → Option (Namespace × String)
  | .upsertView ns designDocument _ _ => some (ns, designDocument)
  | .emit ns designDocument _ _ => some (ns, designDocument)
  | .dropDesignDocument ns designDocument => some (ns, designDocument)
  | _ => none

variable {store : Store} {op : Operation}

theorem ofHistory_append_singleton (history : List Operation) (op : Operation) :
    ofHistory (history ++ [op]) = (ofHistory history).perform op := by
  simp [ofHistory]

/-- A submission is recorded and uses up the failures that are armed, but one that is rejected
leaves the failure of the next stream. It changes no index. -/
theorem submit_state (store : Store) (q : EncodedQuery) (timeout : Duration) :
    (store.submit q timeout).state = {
      documents := store.documents
      failNextSubmit := none
      failStreamAfter := if store.failNextSubmit.isSome then store.failStreamAfter else none
      submitted := store.submitted ++ [q.toJson]
      lastTimeout := some timeout } := by
  unfold submit
  cases store.failNextSubmit with
  | some error => rfl
  | none => cases reply store.documents q <;> rfl

/-- What is submitted comes to the same where the reply and the armed failures are the same. -/
theorem submit_congr {store other : Store} {q : EncodedQuery}
    (replies : reply store.documents q = reply other.documents q)
    (rejects : store.failNextSubmit = other.failNextSubmit)
    (breaks : store.failStreamAfter = other.failStreamAfter) (timeout limit : Duration) :
    (store.submit q timeout).outcome = (other.submit q limit).outcome := by
  unfold submit
  rw [replies, rejects, breaks]
  cases other.failNextSubmit with
  | some error => rfl
  | none => cases reply other.documents q <;> rfl

/-- What an emission does where the view is there. -/
theorem emit_ok {ns : Namespace} {designDocument viewName : String} {entry : Entry}
    {grown : Store} (h : store.emit ns designDocument viewName entry = .ok grown) :
    ∃ views index, store.documents.find? (ns.qualify designDocument) = some views ∧
      Dictionary.find? viewName views = some index ∧
      grown = { store with
        documents := store.documents.insert (ns.qualify designDocument)
          (Dictionary.insert viewName { index with entries := index.entries ++ [entry] } views) } := by
  unfold emit at h
  cases hviews : store.documents.find? (ns.qualify designDocument) with
  | none => simp [hviews] at h
  | some views =>
      cases hindex : Dictionary.find? viewName views with
      | none => simp [hviews, hindex] at h
      | some index =>
          simp only [hviews, hindex, Except.ok.injEq] at h
          exact ⟨views, index, rfl, hindex, h.symm⟩

/-- An operation changes no design document but the one it is performed on. -/
theorem find?_perform_of_ne {name : String}
    (h : ∀ ns designDocument, op.target? = some (ns, designDocument) →
      ns.qualify designDocument ≠ name) :
    (store.perform op).documents.find? name = store.documents.find? name := by
  cases op with
  | upsertView ns designDocument viewName reduction =>
      exact Dictionary.find?_insert_of_ne (h ns designDocument rfl) _ _
  | emit ns designDocument viewName entry =>
      simp only [perform]
      cases hemit : store.emit ns designDocument viewName entry with
      | error error => rfl
      | ok grown =>
          obtain ⟨views, index, -, -, rfl⟩ := emit_ok hemit
          exact Dictionary.find?_insert_of_ne (h ns designDocument rfl) _ _
  | dropDesignDocument ns designDocument =>
      exact Dictionary.find?_erase_of_ne (h ns designDocument rfl) _
  | armSubmitFailure error => rfl
  | armStreamFailure rows => rfl
  | submit query timeout => simp only [perform, submit_state]

/-- What is performed on a design document arms no failure and uses none up. -/
theorem perform_failures (store : Store) (h : op.target?.isSome) :
    (store.perform op).failNextSubmit = store.failNextSubmit ∧
      (store.perform op).failStreamAfter = store.failStreamAfter := by
  cases op with
  | upsertView ns designDocument viewName reduction => exact ⟨rfl, rfl⟩
  | emit ns designDocument viewName entry =>
      simp only [perform]
      cases hemit : store.emit ns designDocument viewName entry with
      | error error => exact ⟨rfl, rfl⟩
      | ok grown =>
          obtain ⟨views, index, -, -, rfl⟩ := emit_ok hemit
          exact ⟨rfl, rfl⟩
  | dropDesignDocument ns designDocument => exact ⟨rfl, rfl⟩
  | armSubmitFailure error => cases h
  | armStreamFailure rows => cases h
  | submit query timeout => cases h

/-- Which failures are armed after an operation depends on those before only. -/
theorem perform_failures_congr {other : Store}
    (rejects : store.failNextSubmit = other.failNextSubmit)
    (breaks : store.failStreamAfter = other.failStreamAfter) (op : Operation) :
    (store.perform op).failNextSubmit = (other.perform op).failNextSubmit ∧
      (store.perform op).failStreamAfter = (other.perform op).failStreamAfter := by
  by_cases target : op.target?.isSome
  · obtain ⟨hrejects, hbreaks⟩ := perform_failures store target
    obtain ⟨hrejects', hbreaks'⟩ := perform_failures other target
    constructor
    · rw [hrejects, hrejects', rejects]
    · rw [hbreaks, hbreaks', breaks]
  · cases op with
    | armSubmitFailure error => exact ⟨rfl, breaks⟩
    | armStreamFailure rows => exact ⟨rejects, rfl⟩
    | submit query timeout => simp only [perform, submit_state, rejects, breaks, and_self]
    | _ => exact absurd rfl target

end DocViews.Store
