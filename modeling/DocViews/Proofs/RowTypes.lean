import DocViews.Proofs.Bucket
import DocViews.Proofs.Json.Depth
import DocViews.Proofs.Request.Mapping
import DocViews.Row.Sample

/-!
The type of its rows decides what a request makes of each value that it is given, and nothing
else. The rows of a store are all of the structured type, whether they are grouped, reduced or
neither: what can be read of them at all is such a row.
-/

namespace DocViews

open Json (ReadAs TooDeep)

/-- The text of a row is read as a row, unless its key or its value is too deep. -/
theorem Row.readAs_or_tooDeep (row : Row) :
    (∃ delivered : Row, ReadAs Json.maxLevels row.toValue delivered.toValue) ∨
      TooDeep Json.maxLevels row.toValue := by
  have each (members : List (String × Json.Value)) :=
    @Json.members_readAs_or_tooDeep Json.fieldLevels members fun member _ =>
      Json.readAs_or_tooDeep Json.fieldLevels member.2
  obtain ⟨id, key, value⟩ := row
  cases id with
  | none =>
      rcases each [("key", key), ("value", value)] with ⟨reads, back⟩ | deep
      · obtain _ | ⟨hkey, _ | ⟨hvalue, _⟩⟩ := back
        exact .inl ⟨_, Row.readAs_toValue hkey.2 hvalue.2⟩
      · exact .inr deep
  | some id =>
      rcases each [("id", .string id), ("key", key), ("value", value)] with ⟨reads, back⟩ | deep
      · obtain _ | ⟨-, _ | ⟨hkey, _ | ⟨hvalue, _⟩⟩⟩ := back
        exact .inl ⟨_, Row.readAs_toValue hkey.2 hvalue.2⟩
      · exact .inr deep

/-- What is read from the text of a row is the value of a row. -/
theorem Row.toValue_of_read {row : Row} {v : Json.Value}
    (read : Json.read row.toValue.bytes = .ok v) : ∃ delivered : Row, v = delivered.toValue := by
  rcases row.readAs_or_tooDeep with ⟨delivered, back⟩ | deep
  · refine ⟨delivered, ?_⟩
    rw [back.read] at read
    cases read
    rfl
  · obtain ⟨position, refused⟩ := deep.read
    rw [refused] at read
    cases read

theorem Reduction.rows_toValue (reduction : Reduction) (grouping : Grouping)
    (entries : List Entry) :
    ∀ v ∈ reduction.rows grouping entries, ∃ row : Row, v = row.toValue := by
  have grouped : ∀ v ∈ (groups grouping entries).filterMap (reduction.groupRow grouping),
      ∃ row : Row, v = row.toValue := by
    intro v hv
    obtain ⟨group, -, hgroup⟩ := List.mem_filterMap.mp hv
    obtain ⟨last, -, rfl⟩ := Option.map_eq_some_iff.mp hgroup
    exact ⟨_, QueryOptions.row_eq_toValue _ _⟩
  intro v hv
  cases grouping with
  | exact => exact grouped v hv
  | level length => exact grouped v hv
  | all =>
      rw [rows] at hv
      split at hv
      · cases hv
      · rw [List.mem_singleton.mp hv]
        exact ⟨_, QueryOptions.row_eq_toValue _ _⟩

/-- Every row of a plan is the value of a row. -/
theorem Plan.rows_toValue (plan : Plan) (index : Index) :
    ∀ v ∈ plan.rows index, ∃ row : Row, v = row.toValue := by
  intro v hv
  unfold rows at hv
  cases hreduction : plan.reduction with
  | some reduction =>
      rw [hreduction] at hv
      exact reduction.rows_toValue plan.grouping _ v hv
  | none =>
      rw [hreduction] at hv
      obtain ⟨e, -, rfl⟩ := List.mem_map.mp hv
      exact ⟨_, QueryOptions.toRow_eq_toValue e⟩

theorem Window.mem_of_mem_apply {α : Type} {window : Window} {rows : List α} {a : α}
    (h : a ∈ window.apply rows) : a ∈ rows := by
  unfold apply at h
  split at h
  · exact List.mem_of_mem_drop (List.mem_of_mem_take h)
  · exact List.mem_of_mem_drop h

theorem ScriptedSource.mem_script {source : ScriptedSource} {i : Nat} {payload : Bytes}
    (h : RowSource.answer source i = .ok (.row payload)) : .ok (.row payload) ∈ source.script := by
  have hitem := answer_script source.script source.trailer i
  rw [h] at hitem
  cases hscript : source.script[i]? with
  | none =>
      rw [hscript] at hitem
      cases hitem
  | some item =>
      rw [hscript] at hitem
      cases hitem
      exact List.mem_of_getElem? hscript

namespace Store

variable {store : Store} {q : EncodedQuery}

theorem mem_rowItems {rows : List Json.Value} {payload : Bytes}
    (h : .ok (.row payload) ∈ rows.map rowItem) : ∃ v ∈ rows, payload = v.bytes := by
  obtain ⟨v, hv, heq⟩ := List.mem_map.mp h
  cases heq
  exact ⟨v, hv, rfl⟩

theorem Reply.mem_source {r : Reply} {failAfter : Option Nat} {payload : Bytes}
    (h : .ok (.row payload) ∈ (r.source failAfter).script) :
    ∃ v ∈ r.answer.rows, payload = v.bytes := by
  have whole : .ok (.row payload) ∈ r.answer.rows.map rowItem ++ [.ok .finished] →
      ∃ v ∈ r.answer.rows, payload = v.bytes := by
    intro h
    rcases List.mem_append.mp h with h | h
    · exact mem_rowItems h
    · cases List.mem_singleton.mp h
  unfold source at h
  split at h
  · exact whole h
  · split at h
    · rcases List.mem_append.mp h with h | h
      · obtain ⟨v, hv, heq⟩ := mem_rowItems h
        exact ⟨v, List.mem_of_mem_take hv, heq⟩
      · cases List.mem_singleton.mp h
    · exact whole h

/-- Every row of a reply is the value of a row. -/
theorem reply_toValue {documents : Dictionary DesignDocument} {r : Reply}
    (replies : reply documents q = .ok r) : ∀ v ∈ r.answer.rows, ∃ row : Row, v = row.toValue := by
  unfold reply at replies
  simp only [bind, Except.bind] at replies
  split at replies
  · cases replies
  split at replies
  · cases replies
  next index _ =>
  split at replies
  · cases replies
  next plan _ =>
  cases replies
  exact fun v hv => plan.rows_toValue index v (Window.mem_of_mem_apply hv)

/-- Whatever a submission is given, its rows are the texts of rows. -/
theorem submit_toValue {timeout : Duration} {source : ScriptedSource}
    (accepted : (store.submit q timeout).outcome = .ok source) {payload : Bytes}
    (h : .ok (.row payload) ∈ source.script) : ∃ row : Row, payload = row.toValue.bytes := by
  unfold submit at accepted
  split at accepted
  · cases accepted
  · simp only at accepted
    split at accepted
    · next r replies =>
        cases accepted
        obtain ⟨v, hv, rfl⟩ := Reply.mem_source h
        obtain ⟨row, rfl⟩ := reply_toValue replies v hv
        exact ⟨row, rfl⟩
    · cases accepted
      cases List.mem_singleton.mp h

end Store

namespace Request

/-- A structured request accepts whatever a raw one is given by a store. -/
theorem mapsAll_store {query : EncodedQuery} (plain : query.serializer?.getD .default = .default)
    (limit : Duration) (n : Nat) (store : Store) :
    MapsAll Row.ofValue n (.new Route.store query limit) store := by
  let origin : Origin Route ScriptedSource := .transport .store limit
  have sound : (origin.request query : Request Route ScriptedSource Json.Value).Sound :=
    origin.sound query
  rcases takeRows_mapping Row.ofValue sound rfl n store with all | rejects
  · exact all
  · obtain ⟨accepted, v, rest, rows, cause, hdelivered, -, rejected, -⟩ := rejects
    have mem : .ok v ∈ (takeRows n (origin.request query) store).answer := by
      rw [hdelivered]
      simp
    obtain ⟨source, calls, i, payload, asks, answered, decoded⟩ := delivered sound mem
    obtain ⟨value, read, hvalue⟩ := decodeRow_eq_ok.mp decoded
    cases hvalue
    cases asks with
    | streaming streaming held => cases held
    | submitted unsubmitted held given =>
        cases held
        obtain ⟨row, rfl⟩ := Store.submit_toValue given (ScriptedSource.mem_script answered)
        have hserializer : (origin.request query : Request Route ScriptedSource
            Json.Value).serializer = .default := plain
        rw [hserializer] at read
        obtain ⟨delivered, rfl⟩ := Row.toValue_of_read read
        rw [Row.ofValue_toValue] at rejected
        cases rejected

/-- A request with a row type, built on the same query and the same transport or source as a raw
one, and pulled as often in whichever way. It delivers the rows that are made of the raw values,
in order, as far as each of them is a row. If all are, it ends as the raw request does, and
shows the same. Else it fails at the first that is none, with the rows before it counted,
without metadata, and with no call beyond that value. The requests for structured rows of a
store accept all that the raw ones are given. -/
theorem row_type_only_maps :
    (∀ {κ ω σ ρ : Type} [Transport κ ω σ] [RowSource σ] [RowType ρ] (origin : Origin κ σ)
      (query : EncodedQuery) (n : Nat) (state : ω),
      let raw : Request κ σ Json.Value := origin.request query
      let typed : Request κ σ ρ := origin.request query
      typed = raw.mapping RowType.ofValue ∧
        Pulls n raw state (takeRows n raw state) ∧ Pulls n typed state (takeRows n typed state) ∧
        (MapsAll (ρ := ρ) RowType.ofValue n raw state ∨
          Rejects (ρ := ρ) RowType.ofValue n raw state)) ∧
    ∀ (query : EncodedQuery) (limit : Duration) (n : Nat) (store : Store),
      query.serializer?.getD .default = .default →
      MapsAll Row.ofValue n (.new Route.store query limit) store := by
  refine ⟨?_, fun query limit n store plain => mapsAll_store plain limit n store⟩
  intro κ ω σ ρ _ _ _ origin query n state raw typed
  have rawSound : raw.Sound := origin.sound query
  have typedSound : typed.Sound := origin.sound query
  exact ⟨origin.request_eq_mapping query, pulls rawSound (origin.live query) n state,
    pulls typedSound (origin.live query) n state,
    takeRows_mapping _ rawSound (origin.raw query) n state⟩

/-- A number is no row with a composite key, so that a request for such rows fails at it; a store
is asked for the rows of a range. -/
theorem row_type_only_maps_sample :
    Rejects KeyOnly.ofValue 2
        (.ofSource lostSource .empty : Request Route ScriptedSource Json.Value) ({} : Store) ∧
      ∃ query, Query.build "default" "people" "by_age" Bucket.sampleOptions = .ok query ∧
        query.encoded.serializer?.getD .default = .default ∧
        MapsAll Row.ofValue 2 (.new Route.store query.encoded ⟨1⟩) Bucket.sampleStore := by
  obtain ⟨beside, stores⟩ := row_type_only_maps
  refine ⟨?_, _, rfl, rfl, stores _ _ _ _ rfl⟩
  let origin : Origin Route ScriptedSource := .source lostSource
  obtain ⟨-, -, -, all | rejects⟩ := beside (ρ := KeyOnly) origin .empty 2 ({} : Store)
  · obtain ⟨items, mapped, -⟩ := all
    cases mapped with
    | cons first _ =>
        cases first with
        | row accepted => cases accepted
  · exact rejects

end Request

end DocViews
