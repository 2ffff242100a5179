import DocViews.Bucket
import DocViews.Proofs.Request.Collect
import DocViews.Proofs.Store.Reply

/-!
Client and server agree: executing a query against a store gives what the options of the
query mean on the store. The options pass through the encoded query, the plan of the store,
the stream of its reply and the decoding of the rows.
-/

namespace DocViews

/-- A row is decoded from the value that it is sent as. -/
theorem Row.ofValue_toValue (row : Row) : Row.ofValue row.toValue = .ok row := by
  obtain ⟨id, key, value⟩ := row
  cases id with
  | none => rfl
  | some id => rfl

open Json (Exact ReadAs)

/-- A row is read as the one whose key and value its own are read as. -/
theorem Row.readAs_toValue {row : Row} {key value : Json.Value}
    (hkey : ReadAs Json.fieldLevels row.key key)
    (hvalue : ReadAs Json.fieldLevels row.value value) :
    ReadAs Json.maxLevels row.toValue (Row.toValue ⟨row.id, key, value⟩) := by
  obtain ⟨id, k, v⟩ := row
  cases id with
  | none =>
      apply Json.readAs_object_of_keys ["key", "value"] rfl (by decide)
      exact .cons ⟨rfl, hkey⟩ (.cons ⟨rfl, hvalue⟩ .nil)
  | some id =>
      apply Json.readAs_object_of_keys ["id", "key", "value"] rfl (by decide)
      exact .cons ⟨rfl, Json.readBack_string id⟩ (.cons ⟨rfl, hkey⟩ (.cons ⟨rfl, hvalue⟩ .nil))

/-- Rows without floats, and not too deep, are read back from their own texts. -/
theorem Evaluation.rowsReadable_of_exact {result : Evaluation}
    (exact : ∀ row ∈ result.rows,
      Exact Json.fieldLevels row.key ∧ Exact Json.fieldLevels row.value) :
    result.RowsReadable := by
  intro row hrow
  obtain ⟨key, value⟩ := exact row hrow
  exact (Row.readAs_toValue (Json.value_written key) (Json.value_written value)).read

theorem QueryOptions.keysReadable_of_exact {o : QueryOptions}
    (exact : ∀ key ∈ o.givenKeys, Exact Json.maxLevels key) : o.KeysReadable :=
  fun key hkey => Json.readString_text (exact key hkey)

namespace Store

variable {store : Store} {q : EncodedQuery}

/-- A store without failures ahead streams the rows of its reply to the end. -/
theorem submit_reply {r : Reply} (accepts : store.failNextSubmit = none)
    (lasts : store.failStreamAfter = none) (replies : reply store.documents q = .ok r)
    (timeout : Duration) :
    (store.submit q timeout).outcome =
      .ok (.whole (r.answer.rows.map Json.Value.bytes) r.trailer.bytes) := by
  unfold submit
  simp only [accepts, lasts, replies]
  unfold Reply.source ScriptedSource.whole
  rw [List.map_map]
  rfl

theorem submit_refusal {m : Marker} (accepts : store.failNextSubmit = none)
    (refuses : reply store.documents q = .error m) (timeout : Duration) :
    (store.submit q timeout).outcome = .ok (refusal m) := by
  unfold submit
  simp only [accepts, refuses]

end Store

namespace Bucket

variable {b : Bucket} {designDocument viewName : String} {o : QueryOptions}

/-- A request that is opened holds the encoded options, and has not been submitted. -/
theorem viewQuery_ok {κ σ ρ : Type} [RowType ρ] {transport : κ} {request : Request κ σ ρ}
    {signals : List Signal}
    (opened : b.viewQuery transport designDocument viewName o = .ok (request, signals)) :
    Query.Encodes request.query designDocument viewName o ∧
      request = .new transport request.query request.timeout := by
  unfold viewQuery prepare at opened
  cases hbuild : Query.build b.name designDocument viewName o with
  | error e => simp [hbuild, bind, Except.bind] at opened
  | ok query =>
      simp only [hbuild, bind, Except.bind, pure, Except.pure, Except.ok.injEq,
        Prod.mk.injEq] at opened
      obtain ⟨hrequest, -⟩ := opened
      subst hrequest
      exact ⟨Query.build_encodes hbuild, rfl⟩

/-- A request that can still be submitted to the store, and decodes what it will be given as
plain rows. -/
structure Fresh (request : Request Route ScriptedSource Row) : Prop where
  unsubmitted : request.stage = .notStarted
  held : request.transport = some Route.store
  blank : request.metadata? = none
  decode : request.decode = Row.ofValue
  serializer : request.serializer = .default

theorem viewQuery_fresh {request : Request Route ScriptedSource Row} {signals : List Signal}
    (plain : o.serializer = none)
    (opened : b.viewQuery Route.store designDocument viewName o = .ok (request, signals)) :
    Fresh request := by
  obtain ⟨enc, hnew⟩ := viewQuery_ok opened
  constructor
  case serializer =>
      unfold Request.serializer
      rw [enc.serializer, plain]
      rfl
  all_goals
    rw [hnew]
    rfl

/-- A row is decoded as the one whose value is read from its text. -/
theorem Fresh.decodeRow {request : Request Route ScriptedSource Row} (fresh : Fresh request)
    {row delivered : Row} (read : Json.read row.toValue.bytes = .ok delivered.toValue) :
    request.decodeRow row.toValue.bytes = .ok delivered := by
  apply Request.decodeRow_eq_ok.mpr
  refine ⟨delivered.toValue, ?_, ?_⟩
  · rw [fresh.serializer]
    exact read
  · rw [fresh.decode]
    exact Row.ofValue_toValue delivered

/-- The rows are decoded as they are meant, if they are read back from their own texts. -/
theorem Fresh.decodeRow_rows {request : Request Route ScriptedSource Row} (fresh : Fresh request)
    {result : Evaluation} (readable : result.RowsReadable) :
    ((result.rows.map Row.toValue).map Json.Value.bytes).map request.decodeRow =
      result.rows.map .ok := by
  simp only [List.map_map]
  exact List.map_congr_left fun row hrow => fresh.decodeRow (readable row hrow)

/-- Executing a query gives the rows and the metadata that its options mean, or the error
that they mean, whatever they are. It is asked for that no failure is armed, that the keys
and rows survive their own texts, and that the counts fit the words that hold them. A build with
overflow checks panics in the submission just where evaluating the options would. -/
theorem execute_evaluates {store : Store} {request : Request Route ScriptedSource Row}
    {signals : List Signal} (accepts : store.failNextSubmit = none)
    (lasts : store.failStreamAfter = none) (plain : o.serializer = none)
    (opened : b.viewQuery Route.store designDocument viewName o = .ok (request, signals))
    (keys : o.KeysReadable)
    (rows : ∀ result, o.evaluate store designDocument viewName = .ok result →
      result.RowsReadable)
    (fit : store.CountsFit o designDocument viewName) :
    let meant := o.evaluate store designDocument viewName
    let given := request.execute store
    given.answer = meant.map (·.rows) ∧
      given.request.metadata? = meant.toOption.map (·.metadata) ∧
      given.request.stage = .done ∧
      (store.submit? request.query request.timeout = none ↔
        ∃ result, meant = .ok result ∧ result.overflows = true) := by
  intro meant given
  obtain ⟨enc, -⟩ := viewQuery_ok opened
  have fresh := viewQuery_fresh plain opened
  rcases Store.reply_evaluate enc keys fit with
    ⟨result, r, hmeant, hreply, hrows, htrailer, hoverflows⟩ | ⟨m, hmeant, hreply⟩
  · have accepted := Store.submit_reply accepts lasts hreply request.timeout
    rw [hrows] at accepted
    have decoded := fresh.decodeRow_rows (rows result hmeant)
    obtain ⟨hanswer, hstage, hmetadata⟩ :=
      Request.execute_whole fresh.unsubmitted fresh.held fresh.blank accepted decoded htrailer
    have hmeant' : meant = .ok result := hmeant
    rw [hmeant', Store.submit?_eq_none]
    refine ⟨hanswer, hmetadata, hstage, ?_⟩
    simp [accepts, hreply, hoverflows]
  · have accepted := Store.submit_refusal accepts hreply request.timeout
    obtain ⟨hanswer, hstage, hmetadata⟩ :=
      Request.execute_marker fresh.unsubmitted fresh.held fresh.blank accepted
    have hmeant' : meant = .error (.ofMarker m) := hmeant
    rw [hmeant', Store.submit?_eq_none]
    refine ⟨hanswer, hmetadata, hstage, ?_⟩
    simp [hreply]

section Sample

/-- Two entries that differ in their keys. -/
def sampleIndex : Index := ⟨[⟨"a", .null, .null⟩, ⟨"b", .bool true, .null⟩], none⟩

def sampleStore : Store where
  documents := .ofPairs [("dev_people", .ofPairs [("by_age", sampleIndex)])]

/-- The entries from the second key on. -/
def sampleOptions : QueryOptions where
  «namespace» := some .development
  startKey := some (.bool true)
  debug := some true

def sampleMetadata : Metadata where
  totalRows := 2
  debug := some (.object [
    ("design_document", .string "dev_people"),
    ("matched_rows", .ofNat 1),
    ("view", .string "by_age")])

theorem selected_sample : sampleOptions.selected sampleIndex = [⟨"b", .bool true, .null⟩] := by
  have hsorted : sampleIndex.entries.mergeSort
      (fun a b => ((collate a.key b.key).then (compare a.id b.id)).isLE) =
      sampleIndex.entries :=
    List.mergeSort_of_pairwise (by simp [sampleIndex, collate, Json.Value.rank]; decide)
  have hscan : sampleOptions.scan sampleIndex = sampleIndex.entries := hsorted
  unfold QueryOptions.selected
  rw [hscan]
  rfl

theorem evaluate_sample :
    sampleOptions.evaluate sampleStore "people" "by_age" =
      .ok ⟨[⟨some "b", .bool true, .null⟩], sampleMetadata, false⟩ := by
  have hfound : sampleOptions.evaluate sampleStore "people" "by_age" =
      .ok ⟨sampleOptions.rows sampleIndex,
        sampleOptions.metadata sampleIndex "dev_people" "by_age", false⟩ := rfl
  rw [hfound]
  simp only [QueryOptions.rows, QueryOptions.allRows, QueryOptions.metadata, selected_sample]
  rfl

/-- The second of the two entries is given, and the size of the index, in any build. -/
theorem execute_evaluates_sample :
    ∃ (request : Request Route ScriptedSource Row) (signals : List Signal),
      (Bucket.mk "default" {}).viewQuery Route.store "people" "by_age" sampleOptions =
        .ok (request, signals) ∧
      (request.execute sampleStore).answer = .ok [⟨some "b", .bool true, .null⟩] ∧
      (request.execute sampleStore).request.metadata? = some sampleMetadata ∧
      (sampleStore.submit? request.query request.timeout).isSome := by
  refine ⟨_, _, rfl, ?_⟩
  have keys : sampleOptions.KeysReadable := by
    apply QueryOptions.keysReadable_of_exact
    intro key hkey
    rw [List.mem_singleton.mp hkey]
    exact .bool true
  have rows : ∀ result, sampleOptions.evaluate sampleStore "people" "by_age" = .ok result →
      result.RowsReadable := by
    intro result hresult
    rw [evaluate_sample] at hresult
    cases hresult
    apply Evaluation.rowsReadable_of_exact
    intro row hrow
    rw [List.mem_singleton.mp hrow]
    exact ⟨.bool true, .null⟩
  have fit : sampleStore.CountsFit sampleOptions "people" "by_age" := by
    intro index hindex
    have hsample : sampleIndex = index := Option.some.inj hindex
    rw [← hsample, selected_sample]
    decide
  obtain ⟨hanswer, hmetadata, -, hpanics⟩ := execute_evaluates rfl rfl rfl rfl keys rows fit
  rw [evaluate_sample] at hanswer hmetadata hpanics
  refine ⟨hanswer, hmetadata, Option.isSome_iff_ne_none.mpr fun panics => ?_⟩
  obtain ⟨result, hresult, overflows⟩ := hpanics.mp panics
  cases hresult
  cases overflows

end Sample

end Bucket

end DocViews
