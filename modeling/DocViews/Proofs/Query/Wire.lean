import DocViews.Proofs.Query.Building

/-!
What goes over the wire tells everything about a query but its serializer. Each parameter can be
told from its value there, and what is not set is not there.
-/

namespace DocViews

namespace Param

def text? : Json.Value → Option String
  | .string s => some s
  | _ => none

/-- The parameter that goes over the wire as a value. -/
def ofWire? : Json.Value → Option Param
  | .string s => some (.string s)
  | .bool b => some (.bool b)
  | .number (.integer n) => some (.natural (.ofNat n.value.toNat))
  | .array items => some (.strings (items.filterMap text?))
  | _ => none

theorem ofWire?_wire? {param : Param} {value : Json.Value} (h : param.wire? = some value) :
    ofWire? value = some param := by
  cases param with
  | string s => cases h; rfl
  | bool b => cases h; rfl
  | natural n =>
      cases h
      have back : UInt64.ofNat (n.toNat : Int).toNat = n := by simp
      exact congrArg (fun n => some (Param.natural n)) back
  | strings list =>
      cases h
      have back : (list.map Json.Value.string).filterMap text? = list := by
        simp [List.filterMap_map, Function.comp_def, text?]
      exact congrArg (fun list => some (Param.strings list)) back
  | serializer s => cases h

theorem wire?_injective {a b : Param} {value : Json.Value} (ha : a.wire? = some value)
    (hb : b.wire? = some value) : a = b :=
  Option.some.inj ((ofWire?_wire? ha).symm.trans (ofWire?_wire? hb))

/-- Only serializers stay on this side of the wire. -/
theorem isSome_wire?_iff {param : Param} : param.wire?.isSome ↔ ∀ s, param ≠ .serializer s := by
  cases param <;> simp [wire?]

end Param

namespace EncodedQuery

variable {a b : EncodedQuery} {name : String} {param : Param}

/-- That two queries have the same parameters but for serializers. -/
def SameOnWire (a b : EncodedQuery) : Prop :=
  ∀ name param, (∀ s, param ≠ .serializer s) → (a.get? name = some param ↔ b.get? name = some param)

theorem toJson_eq_iff_wire :
    a.toJson = b.toJson ↔
      ∀ name, (a.get? name).bind Param.wire? = (b.get? name).bind Param.wire? := by
  unfold toJson get?
  rw [Json.Value.object.injEq, ← Dictionary.ext_iff]
  constructor
  · intro same name
    rw [← Dictionary.find?_mapValues, ← Dictionary.find?_mapValues, same]
  · intro same
    refine Dictionary.eq_of_find? fun name => ?_
    rw [Dictionary.find?_mapValues, Dictionary.find?_mapValues]
    exact same name

/-- What goes over the wire is the same if and only if the parameters are. -/
theorem toJson_eq_iff : a.toJson = b.toJson ↔ a.SameOnWire b := by
  rw [toJson_eq_iff_wire]
  constructor
  · have passes : ∀ {a b : EncodedQuery},
        (∀ name, (a.get? name).bind Param.wire? = (b.get? name).bind Param.wire?) →
          ∀ name param, (∀ s, param ≠ .serializer s) → a.get? name = some param →
            b.get? name = some param := by
      intro a b same name param plain found
      obtain ⟨value, hvalue⟩ := Option.isSome_iff_exists.mp (Param.isSome_wire?_iff.mpr plain)
      have there : (b.get? name).bind Param.wire? = some value := by
        rw [← same name, found]
        exact hvalue
      obtain ⟨other, found', hother⟩ := Option.bind_eq_some_iff.mp there
      rw [found', Param.wire?_injective hvalue hother]
    intro same name param plain
    exact ⟨passes same name param plain, passes (fun name => (same name).symm) name param plain⟩
  · intro same name
    refine Option.ext fun value => ?_
    simp only [Option.bind_eq_some_iff]
    have plain : ∀ {param : Param}, param.wire? = some value → ∀ s, param ≠ .serializer s :=
      fun h => Param.isSome_wire?_iff.mp (Option.isSome_of_eq_some h)
    constructor
    · rintro ⟨param, found, h⟩
      exact ⟨param, (same name param (plain h)).mp found, h⟩
    · rintro ⟨param, found, h⟩
      exact ⟨param, (same name param (plain h)).mpr found, h⟩

theorem string?_eq_some_iff {s : String} :
    a.string? name = some s ↔ a.get? name = some (.string s) := by
  unfold string?
  rcases a.get? name with _ | (_ | _ | _ | _ | _) <;> simp

theorem bool?_eq_some_iff {flag : Bool} :
    a.bool? name = some flag ↔ a.get? name = some (.bool flag) := by
  unfold bool?
  rcases a.get? name with _ | (_ | _ | _ | _ | _) <;> simp

theorem natural?_eq_some_iff {n : UInt64} :
    a.natural? name = some n ↔ a.get? name = some (.natural n) := by
  unfold natural?
  rcases a.get? name with _ | (_ | _ | _ | _ | _) <;> simp

theorem strings?_eq_some_iff {list : List String} :
    a.strings? name = some list ↔ a.get? name = some (.strings list) := by
  unfold strings?
  rcases a.get? name with _ | (_ | _ | _ | _ | _) <;> simp

namespace SameOnWire

variable (same : a.SameOnWire b) (name : String)
include same

theorem string? : a.string? name = b.string? name := by
  refine Option.ext fun s => ?_
  rw [string?_eq_some_iff, string?_eq_some_iff]
  exact same name _ nofun

theorem bool? : a.bool? name = b.bool? name := by
  refine Option.ext fun flag => ?_
  rw [bool?_eq_some_iff, bool?_eq_some_iff]
  exact same name _ nofun

theorem natural? : a.natural? name = b.natural? name := by
  refine Option.ext fun n => ?_
  rw [natural?_eq_some_iff, natural?_eq_some_iff]
  exact same name _ nofun

theorem strings? : a.strings? name = b.strings? name := by
  refine Option.ext fun list => ?_
  rw [strings?_eq_some_iff, strings?_eq_some_iff]
  exact same name _ nofun

end SameOnWire

end EncodedQuery

/-- That options differ in nothing that goes over the wire. That is everything but the serializer,
with the texts of keys and the microseconds of the timeout. -/
structure QueryOptions.SameOnWire (o p : QueryOptions) : Prop where
  clientContextId : o.clientContextId = p.clientContextId
  debug : o.debug = p.debug
  key : o.key.map (·.text) = p.key.map (·.text)
  keys : (o.keys.map fun keys => keys.map (·.text)) = p.keys.map fun keys => keys.map (·.text)
  startKey : o.startKey.map (·.text) = p.startKey.map (·.text)
  endKey : o.endKey.map (·.text) = p.endKey.map (·.text)
  startKeyDocId : o.startKeyDocId = p.startKeyDocId
  endKeyDocId : o.endKeyDocId = p.endKeyDocId
  inclusiveEnd : o.inclusiveEnd = p.inclusiveEnd
  group : o.group = p.group
  groupLevel : o.groupLevel = p.groupLevel
  limit : o.limit = p.limit
  skip : o.skip = p.skip
  reduce : o.reduce = p.reduce
  «namespace» : o.namespace = p.namespace
  order : o.order = p.order
  onError : o.onError = p.onError
  scanConsistency : o.scanConsistency = p.scanConsistency
  timeout : o.timeout.mapM Timeout.toMicros = p.timeout.mapM Timeout.toMicros

theorem QueryOptions.SameOnWire.symm {o p : QueryOptions} (same : o.SameOnWire p) :
    p.SameOnWire o := by
  cases same
  constructor <;> symm <;> assumption

namespace Query

variable {bucketName designDocument viewName bucketName' designDocument' viewName' : String}
  {o p : QueryOptions} {a b : EncodedQuery} {micros : Option Nat}

theorem Records.sameOnWire (records : Records a bucketName designDocument viewName o)
    (records' : Records b bucketName' designDocument' viewName' p) (same : a.SameOnWire b) :
    bucketName = bucketName' ∧ designDocument = designDocument' ∧ viewName = viewName' ∧
      o.SameOnWire p := by
  have token : ∀ {α : Type} [Vocabulary α] [Vocabulary.Lawful α] {x y : Option α},
      x.map Vocabulary.token = y.map Vocabulary.token → x = y :=
    fun h => Option.map_injective (fun _ _ => Vocabulary.token_injective) h
  refine ⟨?_, ?_, ?_, ?_⟩
  · rw [← Option.some.injEq, ← records.bucketName, ← records'.bucketName, same.string?]
  · rw [← Option.some.injEq, ← records.documentName, ← records'.documentName, same.string?]
  · rw [← Option.some.injEq, ← records.viewName, ← records'.viewName, same.string?]
  constructor
  case clientContextId => rw [← records.clientContextId, ← records'.clientContextId, same.string?]
  case debug => rw [← records.debug, ← records'.debug, same.bool?]
  case key => rw [← records.key, ← records'.key, same.string?]
  case keys => rw [← records.keys, ← records'.keys, same.strings?]
  case startKey => rw [← records.startKey, ← records'.startKey, same.string?]
  case endKey => rw [← records.endKey, ← records'.endKey, same.string?]
  case startKeyDocId => rw [← records.startKeyDocId, ← records'.startKeyDocId, same.string?]
  case endKeyDocId => rw [← records.endKeyDocId, ← records'.endKeyDocId, same.string?]
  case inclusiveEnd => rw [← records.inclusiveEnd, ← records'.inclusiveEnd, same.bool?]
  case group => rw [← records.group, ← records'.group, same.bool?]
  case groupLevel => rw [← records.exactGroupLevel, ← records'.exactGroupLevel, same.natural?]
  case limit => rw [← records.exactLimit, ← records'.exactLimit, same.natural?]
  case skip => rw [← records.exactSkip, ← records'.exactSkip, same.natural?]
  case reduce => rw [← records.reduce, ← records'.reduce, same.bool?]
  case «namespace» =>
      exact token (by rw [← records.namespace, ← records'.namespace, same.string?])
  case order => exact token (by rw [← records.order, ← records'.order, same.string?])
  case onError => exact token (by rw [← records.onError, ← records'.onError, same.string?])
  case scanConsistency =>
      exact token (by rw [← records.scanConsistency, ← records'.scanConsistency, same.string?])
  case timeout => rw [records.timeout, records'.timeout, same.natural?]

/-- What is encoded is the same up to the serializer, which comes last. -/
theorem paramsOf_of_sameOnWire (same : o.SameOnWire p) :
    paramsOf bucketName designDocument viewName o micros =
      (paramsOf bucketName designDocument viewName p micros).dropLast ++
        [(.serializer, o.serializer.map .serializer)] := by
  have texts : ∀ {x y : Option Json.Value}, x.map (·.text) = y.map (·.text) →
      x.map (Param.string ·.text) = y.map (Param.string ·.text) := by
    intro x y h
    simpa only [Option.map_map, Function.comp_def] using congrArg (Option.map Param.string) h
  have lists : (o.keys.map fun keys => Param.strings (keys.map (·.text))) =
      p.keys.map fun keys => Param.strings (keys.map (·.text)) := by
    simpa only [Option.map_map, Function.comp_def] using
      congrArg (Option.map Param.strings) same.keys
  simp only [paramsOf, params, same.clientContextId, same.debug, texts same.key, lists,
    texts same.startKey, texts same.endKey, same.startKeyDocId, same.endKeyDocId,
    same.inclusiveEnd, same.group, same.groupLevel, same.limit, same.skip, same.reduce,
    same.namespace, same.order, same.onError, same.scanConsistency]
  rfl

theorem get?_of_sameOnWire {query query' : Query} (same : o.SameOnWire p)
    (h : build bucketName designDocument viewName o = .ok query)
    (h' : build bucketName designDocument viewName p = .ok query') {name : String} {param : Param}
    (plain : ∀ s, param ≠ .serializer s) (found : query.encoded.get? name = some param) :
    query'.encoded.get? name = some param := by
  obtain ⟨-, -, -, -, -, -, -, timed⟩ := build_ok h
  obtain ⟨-, -, -, -, -, -, -, timed'⟩ := build_ok h'
  have micros : query.timeoutMicros = query'.timeoutMicros := by
    rw [same.timeout, timed'] at timed
    exact (Except.ok.inj timed).symm
  rw [build_encoded h] at found
  obtain ⟨field, rfl, set⟩ := exists_of_get?_encode found
  rw [micros, paramsOf_of_sameOnWire same, List.mem_append, List.mem_singleton] at set
  rcases set with set | serializer
  · exact build_get? h' ((List.dropLast_sublist _).subset set)
  · obtain ⟨s, -, hs⟩ := Option.map_eq_some_iff.mp (Prod.mk.inj serializer).2.symm
    exact absurd hs.symm (plain s)

theorem build_sameOnWire_iff {query query' : Query}
    (h : build bucketName designDocument viewName o = .ok query)
    (h' : build bucketName' designDocument' viewName' p = .ok query') :
    query.encoded.SameOnWire query'.encoded ↔
      bucketName = bucketName' ∧ designDocument = designDocument' ∧ viewName = viewName' ∧
        o.SameOnWire p := by
  constructor
  · exact (build_records h).sameOnWire (build_records h')
  · rintro ⟨rfl, rfl, rfl, same⟩ name param plain
    exact ⟨get?_of_sameOnWire same h h' plain, get?_of_sameOnWire same.symm h' h plain⟩

section Sample

/-- An option that is off, and a timeout. -/
def plainOptions : QueryOptions where
  debug := some false
  timeout := some (.seconds 2)

/-- The same with a serializer, the timeout written in another way. -/
def equippedOptions : QueryOptions where
  debug := some false
  timeout := some (.duration (.ofMilliseconds 2000))
  serializer := some (.json "mine")

end Sample

/-- The JSON of two encoded queries is the same if and only if they have the same parameters but
for serializers. So for queries that were built it is the same if and only if the names of
bucket, design document and view are, and the options differ in nothing but the serializer, how a
timeout is written that comes to the same microseconds, and keys with the same texts. What is not
set is not taken for what is off or empty. -/
theorem toJson_faithful :
    (∀ a b : EncodedQuery, a.toJson = b.toJson ↔ ∀ name param, (∀ s, param ≠ .serializer s) →
      (a.get? name = some param ↔ b.get? name = some param)) ∧
    ∀ bucketName designDocument viewName o query bucketName' designDocument' viewName' o' query',
      build bucketName designDocument viewName o = .ok query →
      build bucketName' designDocument' viewName' o' = .ok query' →
        (query.encoded.toJson = query'.encoded.toJson ↔
          bucketName = bucketName' ∧ designDocument = designDocument' ∧ viewName = viewName' ∧
            o.SameOnWire o') := by
  constructor
  · intro a b
    exact EncodedQuery.toJson_eq_iff
  · intro _ _ _ _ _ _ _ _ _ _ h h'
    rw [EncodedQuery.toJson_eq_iff]
    exact build_sameOnWire_iff h h'

/-- Two ways of saying the same go over the wire alike, and leaving out what is off does not. -/
theorem toJson_faithful_sample :
    ∃ plain equipped bare,
      build "default" "people" "by_age" plainOptions = .ok plain ∧
      build "default" "people" "by_age" equippedOptions = .ok equipped ∧
      build "default" "people" "by_age" { plainOptions with debug := none } = .ok bare ∧
      plain.encoded.toJson = equipped.encoded.toJson ∧
      plain.encoded.toJson ≠ bare.encoded.toJson := by
  obtain ⟨-, built⟩ := toJson_faithful
  have same : plainOptions.SameOnWire equippedOptions := by constructor <;> rfl
  refine ⟨_, _, _, rfl, rfl, rfl, (built _ _ _ _ _ _ _ _ _ _ rfl rfl).mpr ⟨rfl, rfl, rfl, same⟩, ?_⟩
  intro alike
  obtain ⟨-, -, -, other⟩ :=
    (built "default" "people" "by_age" plainOptions _ "default" "people" "by_age"
      { plainOptions with debug := none } _ rfl rfl).mp alike
  cases other.debug

end Query

end DocViews
