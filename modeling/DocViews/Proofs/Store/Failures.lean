import DocViews.Proofs.Request.Collect
import DocViews.Proofs.Store.History
import DocViews.Proofs.Store.Pages
import Mathlib.Data.List.Induction

/-!
The failures that are armed in a history, and the one submission that sees each of them. A
history tells by itself what is armed: an error until the next submission, a break of the
stream until the next submission that is not rejected, and each until another takes its place.
Where nothing is armed a stream is all of the answer, and a break cuts that very stream.
-/

namespace DocViews

namespace ScriptedSource

def isRow : Pulled → Bool
  | .ok (.row _) => true
  | _ => false

def isMarker : Pulled → Bool
  | .ok (.marker _) => true
  | _ => false

/-- The items up to the first that is no row, where no other is left. -/
theorem pullAll_rows (payloads : List Bytes) {last : Pulled}
    (ends : isRow last = false) (trailer : Option (Except Fault Bytes)) :
    let rows : List Pulled := payloads.map fun payload => .ok (.row payload)
    FiniteSource.pullAll (ScriptedSource.mk (rows ++ [last]) trailer) =
      (rows ++ [last], ⟨[], trailer⟩) := by
  intro rows
  have pulled : ∀ limit, payloads.length < limit →
      RowSource.pullUpTo limit (ScriptedSource.mk (rows ++ [last]) trailer) =
        (rows ++ [last], ⟨[], trailer⟩) := by
    induction payloads with
    | nil =>
        intro limit enough
        obtain ⟨limit, rfl⟩ := Nat.exists_eq_succ_of_ne_zero (Nat.ne_of_gt enough)
        have hnext : RowSource.next (ScriptedSource.mk [last] trailer) = (last, ⟨[], trailer⟩) := rfl
        simp only [rows, List.map_nil, List.nil_append, RowSource.pullUpTo, hnext]
        rcases last with fault | (payload | m | _)
        · rfl
        · cases ends
        · rfl
        · rfl
    | cons payload payloads ih =>
        intro limit enough
        obtain ⟨limit, rfl⟩ := Nat.exists_eq_succ_of_ne_zero (Nat.ne_of_gt (Nat.zero_lt_of_lt enough))
        have hnext : ∀ rest : List Pulled,
            RowSource.next (ScriptedSource.mk (.ok (.row payload) :: rest) trailer) =
              (.ok (.row payload), ⟨rest, trailer⟩) := fun _ => rfl
        simp only [rows, List.map_cons, List.cons_append, RowSource.pullUpTo, hnext]
        rw [ih limit (Nat.lt_of_succ_lt_succ enough)]
  apply pulled
  show payloads.length < (rows ++ [last]).length + 1
  simp only [rows, List.length_append, List.length_map]
  omega

end ScriptedSource

namespace Store

open ScriptedSource (isRow isMarker)

variable {history : List Operation} {store : Store}

/-- Whether `first` was performed and each operation since then, after what came before it, is
one that `keeps`. -/
def Since (first : Operation) (keeps : List Operation → Operation → Prop)
    (history : List Operation) : Prop :=
  ∃ earlier later, history = earlier ++ first :: later ∧
    ∀ between op rest, later = between ++ op :: rest → keeps (earlier ++ first :: between) op

def Operation.submits : Operation → Bool
  | .submit _ _ => true
  | _ => false

def Operation.armsError : Operation → Bool
  | .armSubmitFailure _ => true
  | _ => false

def Operation.armsBreak : Operation → Bool
  | .armStreamFailure _ => true
  | _ => false

/-- Whether this error was armed, none since then, and nothing was submitted. -/
def ErrorArmed (history : List Operation) (error : ViewError) : Prop :=
  Since (.armSubmitFailure error) (fun _ op => op.armsError = false ∧ op.submits = false) history

/-- Whether a break after so many rows was armed, none since then, and nothing was submitted but
what was rejected. -/
def BreakArmed (history : List Operation) (rows : Nat) : Prop :=
  Since (.armStreamFailure rows)
    (fun before op => op.armsBreak = false ∧ (op.submits = true → ∃ error, ErrorArmed before error))
    history

/-- Either the last operation is the first one itself, or it keeps what there was. -/
theorem since_append_singleton {first last : Operation}
    {keeps : List Operation → Operation → Prop} :
    Since first keeps (history ++ [last]) ↔
      last = first ∨ keeps history last ∧ Since first keeps history := by
  constructor
  · rintro ⟨earlier, later, heq, hkeeps⟩
    rcases List.eq_nil_or_concat later with rfl | ⟨later, op, rfl⟩
    · obtain ⟨-, hlast⟩ := List.append_inj' heq rfl
      exact .inl (List.singleton_inj.mp hlast)
    · have hsplit : history ++ [last] = (earlier ++ first :: later) ++ [op] := by
        simpa [List.concat_eq_append] using heq
      obtain ⟨rfl, hlast⟩ := List.append_inj' hsplit rfl
      cases hlast
      refine .inr ⟨hkeeps later last [] (by simp [List.concat_eq_append]), earlier, later, rfl, ?_⟩
      rintro between op rest rfl
      exact hkeeps between op (rest ++ [last]) (by simp [List.concat_eq_append])
  · rintro (rfl | ⟨hlast, earlier, later, rfl, hkeeps⟩)
    · refine ⟨history, [], rfl, ?_⟩
      intro between op rest heq
      simp at heq
    · refine ⟨earlier, later ++ [last], by simp, ?_⟩
      intro between op rest heq
      rcases List.eq_nil_or_concat rest with rfl | ⟨rest, other, rfl⟩
      · obtain ⟨rfl, hop⟩ := List.append_inj' heq rfl
        cases hop
        exact hlast
      · have hsplit : later ++ [last] = (between ++ op :: rest) ++ [other] := by
          simpa [List.concat_eq_append] using heq
        obtain ⟨rfl, -⟩ := List.append_inj' hsplit rfl
        exact hkeeps between op rest rfl

/-- The error that the next submission fails with is the one that its history tells. -/
theorem failNextSubmit_ofHistory (history : List Operation) (error : ViewError) :
    (ofHistory history).failNextSubmit = some error ↔ ErrorArmed history error := by
  induction history using List.reverseRecOn with
  | nil =>
      refine ⟨nofun, ?_⟩
      rintro ⟨earlier, later, heq, -⟩
      simp at heq
  | append_singleton history op ih =>
      unfold ErrorArmed at ih ⊢
      rw [since_append_singleton, ofHistory_append_singleton, ← ih]
      cases op with
      | armSubmitFailure armed => simp [perform, armSubmitFailure, Operation.armsError]
      | armStreamFailure rows =>
          simp [perform, armStreamFailure, Operation.armsError, Operation.submits]
      | submit q timeout => simp [perform, submit_state, Operation.submits]
      | _ =>
          rw [(perform_failures _ rfl).1]
          simp [Operation.armsError, Operation.submits]

theorem errorArmed_iff (history : List Operation) :
    (∃ error, ErrorArmed history error) ↔ (ofHistory history).failNextSubmit.isSome := by
  simp only [← failNextSubmit_ofHistory, Option.isSome_iff_exists]

/-- The rows after which the next stream breaks off are those that its history tells. -/
theorem failStreamAfter_ofHistory (history : List Operation) (rows : Nat) :
    (ofHistory history).failStreamAfter = some rows ↔ BreakArmed history rows := by
  induction history using List.reverseRecOn with
  | nil =>
      refine ⟨nofun, ?_⟩
      rintro ⟨earlier, later, heq, -⟩
      simp at heq
  | append_singleton history op ih =>
      unfold BreakArmed at ih ⊢
      rw [since_append_singleton, ofHistory_append_singleton, errorArmed_iff, ← ih]
      cases op with
      | armSubmitFailure armed =>
          simp [perform, armSubmitFailure, Operation.armsBreak, Operation.submits]
      | armStreamFailure armed => simp [perform, armStreamFailure, Operation.armsBreak]
      | submit q timeout => simp [perform, submit_state, Operation.armsBreak, Operation.submits]
      | _ =>
          rw [(perform_failures _ rfl).2]
          simp [Operation.armsBreak, Operation.submits]

/-- The store with no failure armed. -/
def disarmed (store : Store) : Store :=
  { store with failNextSubmit := none, failStreamAfter := none }

/-- That a source has no trailer, however many items are pulled from it. -/
def Untrailed (source : ScriptedSource) : Prop :=
  ∀ pulls, ∃ refusal, (RowSource.trailer (RowSource.after source pulls)).1 = .error refusal

/-- That a source gives what a query is answered with, without a fault: all rows of the reply, the
end and the trailer; or the marker of the refusal, and nothing else. -/
inductive Unfaulted (documents : Dictionary DesignDocument) (q : EncodedQuery)
    (source : ScriptedSource) : Prop where
  | answered {r : Reply} (replies : reply documents q = .ok r)
      (items : (FiniteSource.pullAll source).1 = r.answer.rows.map rowItem ++ [.ok .finished])
      (trailer : (RowSource.trailer (FiniteSource.pullAll source).2).1 = .ok r.trailer.bytes)
  | refused {m : Marker} (refuses : reply documents q = .error m)
      (items : (FiniteSource.pullAll source).1 = [.ok (.marker m)])
      (untrailed : Untrailed source)

/-- Whether there are so many rows among the items of a stream, and no marker. -/
def Reaches (items : List Pulled) (rows : Nat) : Prop :=
  rows ≤ items.countP isRow ∧ ∀ item ∈ items, isMarker item = false

/-- What is left of a stream by a break after so many rows: these rows and a fault that is no
error of ours, without a trailer, and all of it if it does not get so far. -/
structure BreaksAfter (rows : Nat) (plain given : ScriptedSource) : Prop where
  broken : Reaches (FiniteSource.pullAll plain).1 rows →
    ((FiniteSource.pullAll plain).1.take rows).length = rows ∧
      (∀ item ∈ (FiniteSource.pullAll plain).1.take rows, isRow item = true) ∧
      (∃ message, (FiniteSource.pullAll given).1 =
        (FiniteSource.pullAll plain).1.take rows ++ [.error (.foreign message)]) ∧
      Untrailed given
  whole : ¬ Reaches (FiniteSource.pullAll plain).1 rows → given = plain

theorem submit_rejected {error : ViewError} (armed : store.failNextSubmit = some error)
    (q : EncodedQuery) (timeout : Duration) : (store.submit q timeout).outcome = .error error := by
  unfold submit
  rw [armed]

/-- A submission that is not rejected gives the stream of the reply, or of its refusal. -/
theorem submit_accepted (accepts : store.failNextSubmit = none) (q : EncodedQuery)
    (timeout : Duration) :
    (store.submit q timeout).outcome = .ok (match reply store.documents q with
      | .ok r => r.source store.failStreamAfter
      | .error m => refusal m) := by
  unfold submit
  rw [accepts]
  cases reply store.documents q <;> rfl

theorem untrailed_of_trailer {script : List Pulled} : Untrailed ⟨script, none⟩ := by
  intro pulls
  rw [ScriptedSource.after_script]
  exact ⟨_, rfl⟩

theorem pullAll_refusal (m : Marker) :
    (FiniteSource.pullAll (refusal m)).1 = [.ok (.marker m)] :=
  congrArg Prod.fst (ScriptedSource.pullAll_rows [] rfl none)

/-- The rows of a reply as the items of its stream, up to one that is no row. -/
theorem pullAll_rowItems (rows : List Json.Value) {last : Pulled}
    (ends : isRow last = false) (trailer : Option (Except Fault Bytes)) :
    FiniteSource.pullAll (ScriptedSource.mk (rows.map rowItem ++ [last]) trailer) =
      (rows.map rowItem ++ [last], ⟨[], trailer⟩) := by
  have hpulled := ScriptedSource.pullAll_rows (rows.map Json.Value.bytes) ends trailer
  rw [List.map_map] at hpulled
  exact hpulled

theorem pullAll_source_none (r : Reply) :
    FiniteSource.pullAll (r.source none) =
      (r.answer.rows.map rowItem ++ [.ok .finished], ⟨[], some (.ok r.trailer.bytes)⟩) :=
  pullAll_rowItems r.answer.rows rfl _

/-- Where no failure is armed the stream is unfaulted. -/
theorem submit_unfaulted (accepts : store.failNextSubmit = none)
    (lasts : store.failStreamAfter = none) (q : EncodedQuery) (timeout : Duration) :
    ∃ given, (store.submit q timeout).outcome = .ok given ∧
      Unfaulted store.documents q given := by
  refine ⟨_, submit_accepted accepts q timeout, ?_⟩
  rw [lasts]
  cases hreply : reply store.documents q with
  | ok r =>
      apply Unfaulted.answered hreply
      · exact congrArg Prod.fst (pullAll_source_none r)
      · simp only [pullAll_source_none]
        rfl
  | error m => exact .refused hreply (pullAll_refusal m) untrailed_of_trailer

theorem isRow_rowItem {rows : List Json.Value} {item : Pulled} (h : item ∈ rows.map rowItem) :
    isRow item = true := by
  obtain ⟨row, -, rfl⟩ := List.mem_map.mp h
  rfl

theorem reaches_rowItems {rows : List Json.Value} {n : Nat} :
    Reaches (rows.map rowItem ++ [.ok .finished]) n ↔ n ≤ rows.length := by
  have hcount : (rows.map rowItem ++ [Except.ok Item.finished]).countP isRow = rows.length := by
    rw [List.countP_append, List.countP_eq_length.mpr fun item h => isRow_rowItem h]
    simp [isRow]
  unfold Reaches
  rw [hcount]
  refine ⟨And.left, fun h => ⟨h, ?_⟩⟩
  intro item hitem
  rcases List.mem_append.mp hitem with hrow | hend
  · obtain ⟨row, -, rfl⟩ := List.mem_map.mp hrow
    rfl
  · rw [List.mem_singleton.mp hend]
    rfl

/-- A break is due after some rows of a reply, or never. -/
theorem Reply.source_breaks (r : Reply) (rows : Nat) :
    BreaksAfter rows (r.source none) (r.source (some rows)) := by
  have hplain : (FiniteSource.pullAll (r.source none)).1 =
      r.answer.rows.map rowItem ++ [.ok .finished] := congrArg Prod.fst (pullAll_source_none r)
  by_cases far : rows ≤ r.answer.rows.length
  · have hgiven : r.source (some rows) =
        ⟨(r.answer.rows.take rows).map rowItem ++
          [.error (.foreign "view node connection closed mid-stream")], none⟩ := if_pos far
    have htake : (r.answer.rows.map rowItem ++ [Except.ok Item.finished]).take rows =
        (r.answer.rows.take rows).map rowItem := by
      rw [List.take_append_of_le_length (by simpa using far), List.map_take]
    constructor
    · intro _
      rw [hplain, htake, hgiven]
      refine ⟨by simp [far], fun item h => isRow_rowItem h, ?_, untrailed_of_trailer⟩
      exact ⟨_, congrArg Prod.fst (pullAll_rowItems _ rfl _)⟩
    · intro short
      rw [hplain, reaches_rowItems] at short
      exact absurd far short
  · constructor
    · intro reaches
      rw [hplain, reaches_rowItems] at reaches
      exact absurd reaches far
    · intro _
      exact if_neg far

/-- A refusal is the same with a break ahead. -/
theorem refusal_breaks (m : Marker) (rows : Nat) : BreaksAfter rows (refusal m) (refusal m) := by
  constructor
  · rintro ⟨-, unmarked⟩
    have hmarker := unmarked (.ok (.marker m)) (by
      rw [pullAll_refusal]
      exact List.mem_singleton.mpr rfl)
    cases hmarker
  · intro _
    rfl

/-- A submission with a break ahead, beside the same one without. -/
theorem submit_breaks {rows : Nat} (accepts : store.failNextSubmit = none)
    (armed : store.failStreamAfter = some rows) (q : EncodedQuery) (timeout : Duration) :
    ∃ plain given, (store.disarmed.submit q timeout).outcome = .ok plain ∧
      (store.submit q timeout).outcome = .ok given ∧ Unfaulted store.documents q plain ∧
      BreaksAfter rows plain given := by
  have hgiven := submit_accepted accepts q timeout
  have calm : store.disarmed.failNextSubmit = none := rfl
  have hplain := submit_accepted calm q timeout
  obtain ⟨plain, hsent, unfaulted⟩ := submit_unfaulted calm rfl q timeout
  rw [hplain, Except.ok.injEq] at hsent
  rw [armed] at hgiven
  refine ⟨_, _, hplain, hgiven, hsent ▸ unfaulted, ?_⟩
  cases hreply : reply store.documents q with
  | ok r =>
      simp only [disarmed, hreply]
      exact r.source_breaks rows
  | error m =>
      simp only [disarmed, hreply]
      exact refusal_breaks m rows

theorem failNextSubmit_none (unarmed : ∀ error, ¬ ErrorArmed history error) :
    (ofHistory history).failNextSubmit = none := by
  apply Option.eq_none_iff_forall_ne_some.mpr
  intro error harmed
  exact unarmed error ((failNextSubmit_ofHistory history error).mp harmed)

theorem failStreamAfter_none (unarmed : ∀ rows, ¬ BreakArmed history rows) :
    (ofHistory history).failStreamAfter = none := by
  apply Option.eq_none_iff_forall_ne_some.mpr
  intro rows harmed
  exact unarmed rows ((failStreamAfter_ofHistory history rows).mp harmed)

/-- What is not armed stays so until it is armed. -/
theorem ofHistory_unarmed (first : Operation → Prop) (now : Store → Prop)
    (keeps : ∀ store op, ¬ first op → now store → now (store.perform op))
    (start : now (ofHistory history)) (later : List Operation) (unarmed : ∀ op ∈ later, ¬ first op) :
    now (ofHistory (history ++ later)) := by
  induction later using List.reverseRecOn with
  | nil => simpa using start
  | append_singleton later op ih =>
      rw [← List.append_assoc, ofHistory_append_singleton]
      apply keeps
      · exact unarmed op (by simp)
      · exact ih fun op hop => unarmed op (by simp [hop])

theorem failNextSubmit_perform_none (op : Operation) (unarmed : ¬ op.armsError = true)
    (h : store.failNextSubmit = none) : (store.perform op).failNextSubmit = none := by
  cases op with
  | armSubmitFailure error => exact absurd rfl unarmed
  | armStreamFailure rows => exact h
  | submit q timeout => simp only [perform, submit_state]
  | _ => rw [(perform_failures _ rfl).1, h]

theorem failStreamAfter_perform_none (op : Operation) (unarmed : ¬ op.armsBreak = true)
    (h : store.failStreamAfter = none) : (store.perform op).failStreamAfter = none := by
  cases op with
  | armSubmitFailure error => exact h
  | armStreamFailure rows => exact absurd rfl unarmed
  | submit q timeout => simp only [perform, submit_state, h, ite_self]
  | _ => rw [(perform_failures _ rfl).2, h]

/-- Each failure that is armed is seen by one submission. An error is seen by the next one, which
is recorded all the same, changes no index and leaves a break of the stream ahead. A break is
seen by the next submission that is not rejected: its stream has the first of the rows of the
unfaulted one, and then the fault, if it gets so far. From then on nothing is rejected and all
streams are unfaulted, until a failure is armed again. -/
theorem failures_seen_once (history : List Operation) (q : EncodedQuery) (timeout : Duration) :
    let store := ofHistory history
    let sent := store.submit q timeout
    let since := history ++ [.submit q timeout]
    (sent.state.submitted = store.submitted ++ [q.toJson] ∧
        sent.state.lastTimeout = some timeout ∧ sent.state.documents = store.documents) ∧
      (∀ error, sent.outcome = .error error ↔ ErrorArmed history error) ∧
      (∀ error, ErrorArmed history error → sent.state.failStreamAfter = store.failStreamAfter ∧
        ∀ rows, BreakArmed since rows ↔ BreakArmed history rows) ∧
      (∀ later, (∀ op ∈ later, ¬ op.armsError = true) → ∀ next limit error,
        ((ofHistory (since ++ later)).submit next limit).outcome ≠ .error error) ∧
      ((∀ error, ¬ ErrorArmed history error) →
        (∀ rows, BreakArmed history rows → ∃ plain given,
          (store.disarmed.submit q timeout).outcome = .ok plain ∧ sent.outcome = .ok given ∧
            Unfaulted store.documents q plain ∧ BreaksAfter rows plain given) ∧
        ((∀ rows, ¬ BreakArmed history rows) →
          ∃ given, sent.outcome = .ok given ∧ Unfaulted store.documents q given) ∧
        ∀ later, (∀ op ∈ later, ¬ op.armsBreak = true) → ∀ next limit,
          let final := ofHistory (since ++ later)
          (∃ error, (final.submit next limit).outcome = .error error) ∨
            ∃ given, (final.submit next limit).outcome = .ok given ∧
              Unfaulted final.documents next given) := by
  intro store sent since
  have hsince : ofHistory since = sent.state := ofHistory_append_singleton history _
  have hstate : sent.state = _ := submit_state store q timeout
  refine ⟨?_, ?_, ?_, ?_, ?_⟩
  · rw [hstate]
    exact ⟨rfl, rfl, rfl⟩
  · intro error
    rw [← failNextSubmit_ofHistory]
    cases harmed : store.failNextSubmit with
    | none =>
        rw [show sent.outcome = _ from submit_accepted harmed q timeout]
        simp
    | some armed =>
        rw [show sent.outcome = _ from submit_rejected harmed q timeout]
        simp
  · intro error armed
    have hbreak : sent.state.failStreamAfter = store.failStreamAfter := by
      rw [hstate, (failNextSubmit_ofHistory history error).mpr armed]
      rfl
    refine ⟨hbreak, fun rows => ?_⟩
    rw [← failStreamAfter_ofHistory, ← failStreamAfter_ofHistory, hsince, hbreak]
  · intro later unarmed next limit error hfailed
    have hnone : (ofHistory (since ++ later)).failNextSubmit = none :=
      ofHistory_unarmed (·.armsError) (·.failNextSubmit = none)
        (fun _ => failNextSubmit_perform_none) (by rw [hsince, hstate]) later unarmed
    rw [submit_accepted hnone] at hfailed
    cases hfailed
  · intro unarmed
    have accepts : store.failNextSubmit = none := failNextSubmit_none unarmed
    refine ⟨?_, ?_, ?_⟩
    · intro rows armed
      exact submit_breaks accepts ((failStreamAfter_ofHistory history rows).mpr armed) q timeout
    · intro unbroken
      exact submit_unfaulted accepts (failStreamAfter_none unbroken) q timeout
    · intro later unarmed next limit final
      have hnone : final.failStreamAfter = none :=
        ofHistory_unarmed (·.armsBreak) (·.failStreamAfter = none)
          (fun _ => failStreamAfter_perform_none) (by rw [hsince, hstate, accepts]; rfl)
          later unarmed
      cases hfinal : final.failNextSubmit with
      | some error => exact .inl ⟨error, submit_rejected hfinal next limit⟩
      | none => exact .inr (submit_unfaulted hfinal hnone next limit)

section Sample

def brittleIndex : Index := ⟨[⟨"a", .null, .null⟩, ⟨"b", .bool true, .null⟩], none⟩

/-- A view with two entries, and a stream ahead that breaks off after the first. -/
def brittleHistory : List Operation := [
  .upsertView .production "people" "visits" none,
  .emit .production "people" "visits" ⟨"a", .null, .null⟩,
  .emit .production "people" "visits" ⟨"b", .bool true, .null⟩,
  .armStreamFailure 1]

def allVisits : EncodedQuery :=
  .ofPairs [("document_name", .string "people"), ("view_name", .string "visits")]

theorem rowsOf_brittle :
    rowsOf (ofHistory brittleHistory).documents allVisits =
      .ok (brittleIndex.entries.map Entry.toRow) := by
  have located : indexOf (ofHistory brittleHistory).documents allVisits = .ok brittleIndex := rfl
  have scanned : brittleIndex.scan .ascending = brittleIndex.entries :=
    List.mergeSort_of_pairwise (by decide +kernel)
  have selects : Plan.selectionOf allVisits = .ok (.range none none none true) := rfl
  have raw : Plan.reductionOf allVisits (viewNameOf allVisits) brittleIndex.reduction = .ok none :=
    rfl
  have selected : Plan.selected ⟨.ascending, .range none none none true, none, .all, ⟨0, none⟩⟩
      brittleIndex = brittleIndex.entries := by
    rw [Plan.selected, scanned]
    rfl
  rw [rowsOf_of_selection located selects raw]
  exact congrArg (fun entries => Except.ok (entries.map Entry.toRow)) selected

end Sample

/-- The first submission has one row and a fault, and the second has both rows to the end. -/
theorem failures_seen_once_brittle :
    let sent := (ofHistory brittleHistory).submit allVisits (.ofSeconds 1)
    let again := (ofHistory (brittleHistory ++ [.submit allVisits (.ofSeconds 1)])).submit
      allVisits (.ofSeconds 1)
    ∃ given later message trailer,
      sent.outcome = .ok given ∧
      (FiniteSource.pullAll given).1 =
        [rowItem (Entry.toRow ⟨"a", .null, .null⟩), .error (.foreign message)] ∧
      Untrailed given ∧
      again.outcome = .ok later ∧
      (FiniteSource.pullAll later).1 = [rowItem (Entry.toRow ⟨"a", .null, .null⟩),
        rowItem (Entry.toRow ⟨"b", .bool true, .null⟩), .ok .finished] ∧
      (RowSource.trailer (FiniteSource.pullAll later).2).1 = .ok trailer := by
  obtain ⟨-, -, -, unrejected, accepted⟩ :=
    failures_seen_once brittleHistory allVisits (.ofSeconds 1)
  have unarmed : ∀ error, ¬ ErrorArmed brittleHistory error := by
    intro error armed
    cases (failNextSubmit_ofHistory brittleHistory error).mpr armed
  obtain ⟨breaks, -, afterwards⟩ := accepted unarmed
  obtain ⟨r, replies, rows⟩ := exists_reply rowsOf_brittle
  obtain ⟨plain, given, -, sent, unfaulted, cut⟩ :=
    breaks 1 ((failStreamAfter_ofHistory brittleHistory 1).mp rfl)
  have whole : (FiniteSource.pullAll plain).1 =
      (brittleIndex.entries.map Entry.toRow).map rowItem ++ [.ok .finished] := by
    cases unfaulted with
    | answered also items =>
        cases also.symm.trans replies
        rw [items, rows]
    | refused refuses => cases refuses.symm.trans replies
  have reaches : Reaches (FiniteSource.pullAll plain).1 1 := by
    rw [whole]
    exact reaches_rowItems.mpr (by decide)
  obtain ⟨-, -, ⟨message, items⟩, untrailed⟩ := cut.broken reaches
  rcases afterwards [] nofun allVisits (.ofSeconds 1) with ⟨error, rejected⟩ | ⟨later, again, clean⟩
  · exact absurd rejected (unrejected [] nofun allVisits (.ofSeconds 1) error)
  · cases clean with
    | answered also found trailer =>
        cases also.symm.trans replies
        rw [rows] at found
        rw [whole] at items
        exact ⟨given, later, message, _, sent, items, untrailed, again, found, trailer⟩
    | refused refuses => cases refuses.symm.trans replies

end Store

end DocViews
