import DocViews.Proofs.Json.Values
import DocViews.Proofs.Request.Collect
import DocViews.Proofs.Request.Mapping

/-!
Values that are put into a script as rows come out of it as they are. Encoding and decoding undo
each other on values without floats that are not too deep, and a raw request hands out what was
decoded, row by row.
-/

namespace DocViews

open Json (Exact)

namespace Request

variable {κ ω σ ρ : Type}

/-- As many pulls as there are rows in front that decode deliver these. -/
theorem takeRows_rows [Transport κ ω σ] [RowSource σ] {r : Request κ σ ρ} {source : σ}
    {rows : List ρ} (streams : r.StreamsFrom source)
    (found : ∀ i (h : i < rows.length), r.rowAt source i = some rows[i]) (state : ω) :
    (takeRows rows.length r state).answer = rows.map .ok := by
  induction rows generalizing r source state with
  | nil => rfl
  | cons row rows ih =>
      have first : r.rowAt source 0 = some row := found 0 (Nat.zero_lt_succ _)
      obtain ⟨hanswer, hrequest⟩ := next_row (n := 0) streams first state
      have further : ∀ i (h : i < rows.length),
          (r.advanced source 1).rowAt (RowSource.after source 1) i = some rows[i] :=
        fun i h => found (i + 1) (Nat.succ_lt_succ h)
      have rest := ih (streams.advanced 1) further (r.next state).state
      rw [List.length_cons, takeRows_cons hanswer, hrequest]
      exact congrArg (Except.ok row :: ·) rest

/-- The same, if the source is only given once the request submits itself. -/
theorem takeRows_asked [Transport κ ω σ] [RowSource σ] {r : Request κ σ ρ} {state : ω}
    {source : σ} {calls : List Call} {rows : List ρ} (h : r.Sound)
    (asks : Asks r state source calls) (nonempty : rows ≠ [])
    (found : ∀ i (h : i < rows.length), r.rowAt source i = some rows[i]) :
    (takeRows rows.length r state).answer = rows.map .ok := by
  cases asks with
  | streaming streaming held =>
      obtain ⟨-, released, blank, -⟩ := h.streaming streaming
      exact takeRows_rows ⟨streaming, held, released, blank⟩ found state
  | @submitted handle _ unsubmitted held accepted =>
      obtain ⟨-, -, blank, -⟩ := h.notStarted unsubmitted
      have streams : (r.begun source).StreamsFrom source := ⟨rfl, rfl, rfl, blank⟩
      obtain ⟨n, hn⟩ := Nat.exists_eq_succ_of_ne_zero fun zero =>
        nonempty (List.length_eq_zero_iff.mp zero)
      have taken := takeRows_rows streams found
        (Transport.submit handle r.query r.timeout state).state
      rw [hn] at taken ⊢
      exact (takeRows_begun unsubmitted held accepted n).trans taken

/-- A raw request hands out what is read. -/
theorem map_decodeRow_raw {r : Request κ σ Json.Value} (raw : r.decode = .ok)
    (plain : r.serializer = .default) {payloads : List Bytes} {values : List Json.Value}
    (reads : payloads.map Json.read = values.map .ok) :
    payloads.map r.decodeRow = values.map .ok := by
  induction payloads generalizing values with
  | nil =>
      cases values with
      | nil => rfl
      | cons v values => cases reads
  | cons payload payloads ih =>
      cases values with
      | nil => cases reads
      | cons v values =>
          obtain ⟨first, rest⟩ := List.cons.inj reads
          have decoded : r.decodeRow payload = .ok v := by
            apply decodeRow_eq_ok.mpr
            rw [plain, raw]
            exact ⟨v, first, rfl⟩
          rw [List.map_cons, List.map_cons, decoded, ih rest]

/-- A value without floats that is nested at most 127 levels deep, and whose objects have their
members in order, survives the way from one end to the other. It is decoded from what it is
encoded as. And if it is appended to a script as a row, with rows before it that are read, a raw
request that asks this source delivers those and then the value itself, in whichever way it is
pulled. -/
theorem rowJson_delivered {v : Json.Value} (exact : Exact 127 v) :
    Serializer.default.decode (Serializer.default.encode v) = .ok v ∧
      ∀ {κ ω : Type} [Transport κ ω ScriptedSource] (origin : Origin κ ScriptedSource)
        (query : EncodedQuery) (state : ω) (calls : List Call) (source asked : ScriptedSource)
        (payloads : List Bytes) (values : List Json.Value) (further : List Pulled),
        let raw : Request κ ScriptedSource Json.Value := origin.request query
        let given := takeRows (values.length + 1) raw state
        raw.serializer = .default → Asks raw state asked calls →
        source.script = payloads.map (fun payload => .ok (.row payload)) →
        payloads.map Json.read = values.map .ok →
        asked.script = (source.rowJson v).script ++ further →
        Pulls (values.length + 1) raw state given ∧ given.answer = (values ++ [v]).map .ok := by
  have read : Json.read v.bytes = .ok v := Json.read_bytes exact
  refine ⟨read, ?_⟩
  intro κ ω _ origin query state calls source asked payloads values further raw given plain asks
    before reads script
  have sound : raw.Sound := origin.sound query
  have decoded : (payloads ++ [v.bytes]).map raw.decodeRow = (values ++ [v]).map .ok := by
    apply map_decodeRow_raw (origin.raw query) plain
    rw [List.map_append, List.map_append, reads, List.map_singleton, List.map_singleton, read]
  have front : asked.script =
      (payloads ++ [v.bytes]).map (fun payload => .ok (.row payload)) ++ further := by
    rw [script, ScriptedSource.rowJson, ScriptedSource.row, before, List.map_append,
      List.map_singleton]
  have rows := rowAt_script decoded front
  refine ⟨pulls sound (origin.live query) _ state, ?_⟩
  have taken := takeRows_asked sound asks (by simp) rows
  rwa [List.length_append] at taken

/-- Quotes, backslashes and control characters, both ends of the range of integers, and empty
containers. -/
def sampleValue : Json.Value :=
  .object [
    ("", .array [.string "\"\\\n\u00e9", .array [], .object []]),
    ("least", .number (.integer ⟨-0x8000000000000000, by decide, by decide⟩)),
    ("most", .number (.integer ⟨0xffffffffffffffff, by decide, by decide⟩))]

theorem rowJson_delivered_sample :
    let source : ScriptedSource := ⟨[], none⟩
    let raw : Request Route ScriptedSource Json.Value :=
      .ofSource (source.rowJson sampleValue) .empty
    Exact 127 sampleValue ∧
      Serializer.default.decode (Serializer.default.encode sampleValue) = .ok sampleValue ∧
      (takeRows 1 raw ({} : Store)).answer = [.ok sampleValue] := by
  intro source raw
  have exact : Exact 127 sampleValue := by
    refine @Exact.object _ ⟨_, by decide⟩ ?_
    intro member hmember
    simp only [List.mem_cons, List.not_mem_nil, or_false] at hmember
    obtain rfl | rfl | rfl := hmember
    · refine .array fun item hitem => ?_
      simp only [List.mem_cons, List.not_mem_nil, or_false] at hitem
      obtain rfl | rfl | rfl := hitem
      · exact .string _
      · exact .array nofun
      · exact @Exact.object _ .empty (by simp)
    · exact .integer _
    · exact .integer _
  obtain ⟨back, delivers⟩ := rowJson_delivered exact
  let origin : Origin Route ScriptedSource := .source (source.rowJson sampleValue)
  obtain ⟨-, delivered⟩ := delivers origin .empty ({} : Store) [] source
    (source.rowJson sampleValue) [] [] [] rfl (.streaming rfl rfl) rfl rfl rfl
  exact ⟨exact, back, delivered⟩

end Request

end DocViews
