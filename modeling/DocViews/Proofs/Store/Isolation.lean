import DocViews.Proofs.Store.History
import Mathlib.Data.List.Induction
import Mathlib.Tactic.Push

/-!
How far the two namespaces keep apart. Both store their design documents under one kind of
name, so a document in development and one in production are the same document if the name
of the latter is the name of the former with the mark of development in front. Apart from
such pairs, what is done to one design document is never seen through another.
-/

namespace DocViews

namespace Namespace

/-- Whether a document in development and one in production are stored under one name. -/
def Overlap (development production : Namespace × String) : Prop :=
  development.1 = .development ∧ production.1 = .production ∧
    production.2 = "dev_" ++ development.2

theorem prefix_injective {name other : String} (h : "dev_" ++ name = "dev_" ++ other) :
    name = other := by
  have hchars := congrArg String.toList h
  rw [String.toList_append, String.toList_append] at hchars
  exact String.toList_inj.mp (List.append_cancel_left hchars)

/-- Two documents are stored under one name only if they are the same or overlap. -/
theorem qualify_eq_iff {ns other : Namespace} {name otherName : String} :
    ns.qualify name = other.qualify otherName ↔
      (ns, name) = (other, otherName) ∨
        Overlap (ns, name) (other, otherName) ∨ Overlap (other, otherName) (ns, name) := by
  cases ns <;> cases other
  case production.production => simp [qualify, Overlap]
  case production.development => simp [qualify, Overlap]
  case development.production => simp [qualify, Overlap, eq_comm]
  case development.development =>
      constructor
      · intro h
        exact .inl (by rw [prefix_injective h])
      · rintro (h | h | h)
        · cases h
          rfl
        · cases h.2.1
        · cases h.2.1

end Namespace

namespace Store

open Namespace (Overlap)

/-- Whether a query is about views of this design document. -/
def Addresses (q : EncodedQuery) (ns : Namespace) (designDocument : String) : Prop :=
  namespaceOf q = .ok ns ∧ (q.string? QueryField.documentName).getD "" = designDocument

/-- Whether an operation is performed on a design document in development. -/
def Operation.inDevelopment (op : Operation) : Bool :=
  op.target?.any fun target => target.1 = .development

theorem indexSize_congr {store other : Store} {ns : Namespace} {designDocument : String}
    (h : store.documents.find? (ns.qualify designDocument) =
      other.documents.find? (ns.qualify designDocument)) (viewName : String) :
    store.indexSize ns designDocument viewName = other.indexSize ns designDocument viewName := by
  unfold indexSize index?
  rw [h]

/-- A reply is taken from the design document that the query is about. -/
theorem reply_congr {documents others : Dictionary DesignDocument} {q : EncodedQuery}
    {ns : Namespace} {designDocument : String} (addressed : Addresses q ns designDocument)
    (h : documents.find? (ns.qualify designDocument) = others.find? (ns.qualify designDocument)) :
    reply documents q = reply others q := by
  have hlocate : ∀ viewName, locate documents (ns.qualify designDocument) viewName =
      locate others (ns.qualify designDocument) viewName := by
    intro viewName
    unfold locate
    rw [h]
  unfold reply
  rw [addressed.1, addressed.2]
  simp only [bind, Except.bind, hlocate]

/-- What becomes of a design document in an operation depends on that document only. -/
theorem find?_perform_congr {store other : Store} {name : String}
    (h : store.documents.find? name = other.documents.find? name) (op : Operation) :
    (store.perform op).documents.find? name = (other.perform op).documents.find? name := by
  by_cases elsewhere : ∀ ns designDocument, op.target? = some (ns, designDocument) →
      ns.qualify designDocument ≠ name
  · rw [find?_perform_of_ne elsewhere, find?_perform_of_ne elsewhere, h]
  · push Not at elsewhere
    obtain ⟨ns, designDocument, target, rfl⟩ := elsewhere
    cases op with
    | upsertView ns designDocument viewName reduction =>
        cases target
        simp only [perform, upsertView, Dictionary.find?_insert_self, h]
    | emit ns designDocument viewName entry =>
        cases target
        simp only [perform, emit, h]
        cases hviews : other.documents.find? (ns.qualify designDocument) with
        | none => simp only [h, hviews]
        | some views =>
            cases hindex : Dictionary.find? viewName views with
            | none => simp only [hindex, h, hviews]
            | some index => simp only [hindex, Dictionary.find?_insert_self]
    | dropDesignDocument ns designDocument =>
        cases target
        simp only [perform, dropDesignDocument, Dictionary.find?_erase_self]
    | armSubmitFailure error => cases target
    | armStreamFailure rows => cases target
    | submit query timeout => cases target

/-- What is performed in development is performed under another name. -/
theorem find?_elsewhere {name : String} (unmarked : ∀ rest, name ≠ "dev_" ++ rest)
    {op : Operation} (developing : op.inDevelopment) :
    (∀ ns designDocument, op.target? = some (ns, designDocument) →
      ns.qualify designDocument ≠ name) ∧ op.target?.isSome := by
  unfold Operation.inDevelopment at developing
  cases target : op.target? with
  | none => simp [target] at developing
  | some document =>
      simp only [target, Option.any_some, decide_eq_true_eq] at developing
      refine ⟨?_, rfl⟩
      rintro ns designDocument ⟨rfl⟩ same
      rw [show ns = .development from developing] at same
      exact unmarked designDocument same.symm

/-- Nothing that is done in development is left in a design document whose name bears no mark of
development, nor in the failures that are armed. -/
theorem purged {name : String} (unmarked : ∀ rest, name ≠ "dev_" ++ rest)
    (history : List Operation) :
    let whole := ofHistory history
    let purged := ofHistory (history.filter (!·.inDevelopment))
    whole.documents.find? name = purged.documents.find? name ∧
      whole.failNextSubmit = purged.failNextSubmit ∧
      whole.failStreamAfter = purged.failStreamAfter := by
  induction history using List.reverseRecOn with
  | nil => exact ⟨rfl, rfl, rfl⟩
  | append_singleton history op ih =>
      obtain ⟨same, rejects, breaks⟩ := ih
      simp only [List.filter_append, ofHistory_append_singleton]
      cases developing : op.inDevelopment with
      | true =>
          obtain ⟨elsewhere, target⟩ := find?_elsewhere unmarked developing
          obtain ⟨hrejects, hbreaks⟩ := perform_failures (ofHistory history) target
          simp only [List.filter_cons, developing, Bool.not_true, Bool.false_eq_true, if_false,
            List.filter_nil, List.append_nil]
          rw [find?_perform_of_ne elsewhere, hrejects, hbreaks]
          exact ⟨same, rejects, breaks⟩
      | false =>
          simp only [List.filter_cons, developing, Bool.not_false, if_true, List.filter_nil]
          rw [ofHistory_append_singleton]
          exact ⟨find?_perform_congr same op, perform_failures_congr rejects breaks op⟩

/-- What is done to one design document is not seen through another, neither in the sizes of
its views nor in what queries on it come to, unless the two overlap. So a query in production
comes to what it would if nothing had ever been done in development, if the name of its
document does not begin with the mark of development. -/
theorem isolated {ns other : Namespace} {name otherName : String}
    (differ : (ns, name) ≠ (other, otherName))
    (apart : ¬ Overlap (ns, name) (other, otherName) ∧ ¬ Overlap (other, otherName) (ns, name))
    (history : List Operation) (op : Operation) (target : op.target? = some (ns, name)) :
    let before := ofHistory history
    let after := before.perform op
    (∀ viewName, after.indexSize other otherName viewName =
        before.indexSize other otherName viewName) ∧
      (∀ q timeout, Addresses q other otherName →
        (after.submit q timeout).outcome = (before.submit q timeout).outcome) ∧
      ∀ q timeout productive, Addresses q .production productive →
        (∀ rest, productive ≠ "dev_" ++ rest) →
        (before.submit q timeout).outcome =
          ((ofHistory (history.filter (!·.inDevelopment))).submit q timeout).outcome := by
  intro before after
  have elsewhere : after.documents.find? (other.qualify otherName) =
      before.documents.find? (other.qualify otherName) := by
    apply find?_perform_of_ne
    intro ns' name' target' same
    rw [target] at target'
    cases target'
    rcases Namespace.qualify_eq_iff.mp same with h | h | h
    · exact differ h
    · exact apart.1 h
    · exact apart.2 h
  obtain ⟨rejects, breaks⟩ :=
    perform_failures before (by rw [target]; rfl)
  refine ⟨fun viewName => indexSize_congr elsewhere viewName, ?_, ?_⟩
  · intro q timeout addressed
    exact submit_congr (reply_congr addressed elsewhere) rejects breaks timeout timeout
  · intro q timeout productive addressed unmarked
    obtain ⟨same, rejects, breaks⟩ := purged unmarked history
    exact submit_congr (reply_congr addressed same) rejects breaks timeout timeout

section Sample

/-- The same view in both namespaces. -/
def createdInBoth : List Operation := [
  .upsertView .production "people" "by_age" none,
  .upsertView .development "people" "by_age" none]

def emittedInDevelopment : Operation :=
  .emit .development "people" "by_age" ⟨"a", .null, .null⟩

/-- A query on a view of a design document in production. -/
def productionQuery (designDocument : String) : EncodedQuery :=
  .ofPairs [("document_name", .string designDocument), ("view_name", .string "by_age")]

/-- What is emitted in development is not seen in production under the same name. -/
theorem isolated_people :
    let before := ofHistory createdInBoth
    let after := before.perform emittedInDevelopment
    let q := productionQuery "people"
    emittedInDevelopment.target? = some (.development, "people") ∧
      Addresses q .production "people" ∧
      after.indexSize .development "people" "by_age" = some 1 ∧
      after.indexSize .production "people" "by_age" = some 0 ∧
      (after.submit q ⟨0⟩).outcome = (before.submit q ⟨0⟩).outcome ∧
      (before.submit q ⟨0⟩).outcome =
        ((ofHistory [.upsertView .production "people" "by_age" none]).submit q ⟨0⟩).outcome := by
  intro before after q
  have differ : (Namespace.development, "people") ≠ (.production, "people") := by decide
  have apart : ¬ Overlap (.development, "people") (.production, "people") ∧
      ¬ Overlap (.production, "people") (.development, "people") := by
    constructor
    · rintro ⟨-, -, h⟩
      exact absurd h (by decide)
    · rintro ⟨h, -⟩
      cases h
  have unmarked : ∀ rest, "people" ≠ "dev_" ++ rest := by
    intro rest h
    have hchars := congrArg String.toList h
    simp at hchars
  obtain ⟨sizes, answers, productive⟩ :=
    isolated differ apart createdInBoth emittedInDevelopment rfl
  refine ⟨rfl, ⟨rfl, rfl⟩, rfl, ?_, ?_, ?_⟩
  · exact sizes "by_age"
  · exact answers q ⟨0⟩ ⟨rfl, rfl⟩
  · exact productive q ⟨0⟩ "people" ⟨rfl, rfl⟩ unmarked

/-- It is seen under the name that it is stored under: in the size of the view, and by a query
that is answered instead of refused. -/
theorem not_isolated_overlapping :
    let before := ofHistory []
    let created := Operation.upsertView .development "people" "by_age" none
    let after := before.perform created
    let q := productionQuery "dev_people"
    created.target? = some (.development, "people") ∧
      (Namespace.development, "people") ≠ (.production, "dev_people") ∧
      Addresses q .production "dev_people" ∧
      before.indexSize .production "dev_people" "by_age" = none ∧
      after.indexSize .production "dev_people" "by_age" = some 0 ∧
      (reply before.documents q).isOk = false ∧ (reply after.documents q).isOk = true := by
  refine ⟨rfl, by decide, ⟨rfl, rfl⟩, rfl, rfl, rfl, rfl⟩

end Sample

end Store

end DocViews
