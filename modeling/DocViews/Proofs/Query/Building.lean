import DocViews.Proofs.Query.Encoding
import Mathlib.Data.List.Nodup

/-!
Building a query. What can be wrong is looked for in a fixed order: three counts and then the
timeout. Otherwise the query is built; what was set is encoded, and nothing else, and what the
query keeps beside its encoding is what can be read from that.
-/

namespace DocViews

/-- A type whose values are read back from their names. -/
class Vocabulary.Lawful (α : Type) [Vocabulary α] : Prop where
  parse_token : ∀ a : α, parse (token a) = .ok a

namespace Vocabulary

instance : Lawful Namespace := ⟨fun a => by cases a <;> rfl⟩

instance : Lawful Direction := ⟨fun a => by cases a <;> rfl⟩

instance : Lawful OnError := ⟨fun a => by cases a <;> rfl⟩

instance : Lawful ScanConsistency := ⟨fun a => by cases a <;> rfl⟩

variable {α : Type} [Vocabulary α] [Lawful α]

theorem token_injective {a b : α} (h : token a = token b) : a = b := by
  have parsed := Lawful.parse_token a
  rw [h, Lawful.parse_token] at parsed
  exact (Except.ok.inj parsed).symm

/-- A choice is read back from its name if it was made. -/
theorem mapM_parse_token (choice : Option α) : (choice.map token).mapM parse = .ok choice := by
  cases choice with
  | none => rfl
  | some a => simp [Lawful.parse_token, Functor.map, Except.map]

end Vocabulary

namespace QueryOptions

/-- What is wrong with a count, unless it fits 32 bits. -/
def countOffence? (field : QueryField) (n : Int) : Option ViewError :=
  if 0 ≤ n ∧ n ≤ 0xffffffff then none
  else some (.invalidArgument
    (field.name ++ " must be between 0 and 4294967295, got " ++ String.ofList (integerChars n)))

def timeoutOffence? (timeout : Timeout) : Option ViewError :=
  match timeout.toMicros with
  | .ok _ => none
  | .error e => some e

/-- What is wrong with the option of a field, if it is set and anything is. -/
def offence? (o : QueryOptions) : QueryField → Option ViewError
  | .groupLevel => o.groupLevel.bind (countOffence? .groupLevel)
  | .limit => o.limit.bind (countOffence? .limit)
  | .skip => o.skip.bind (countOffence? .skip)
  | .timeout => o.timeout.bind timeoutOffence?
  | _ => none

/-- Whether a query with these options has the field: the names it always has, and what is set. -/
def sets (o : QueryOptions) : QueryField → Bool
  | .bucketName | .documentName | .viewName => true
  | .namespace => o.namespace.isSome
  | .clientContextId => o.clientContextId.isSome
  | .debug => o.debug.isSome
  | .key => o.key.isSome
  | .keys => o.keys.isSome
  | .startKey => o.startKey.isSome
  | .endKey => o.endKey.isSome
  | .startKeyDocId => o.startKeyDocId.isSome
  | .endKeyDocId => o.endKeyDocId.isSome
  | .inclusiveEnd => o.inclusiveEnd.isSome
  | .group => o.group.isSome
  | .groupLevel => o.groupLevel.isSome
  | .limit => o.limit.isSome
  | .skip => o.skip.isSome
  | .reduce => o.reduce.isSome
  | .order => o.order.isSome
  | .onError => o.onError.isSome
  | .scanConsistency => o.scanConsistency.isSome
  | .timeout => o.timeout.isSome
  | .serializer => o.serializer.isSome

theorem countOffence?_eq_none_iff {field : QueryField} {n : Int} :
    countOffence? field n = none ↔ 0 ≤ n ∧ n ≤ 0xffffffff := by
  simp [countOffence?]

theorem toMicros_eq_error_iff (timeout : Timeout) (e : ViewError) :
    timeout.toMicros = .error e ↔ timeoutOffence? timeout = some e := by
  unfold timeoutOffence?
  cases timeout.toMicros <;> simp

theorem timeoutOffence?_eq_none_iff {timeout : Timeout} :
    timeoutOffence? timeout = none ↔ ∃ micros, timeout.toMicros = .ok micros := by
  unfold timeoutOffence?
  cases timeout.toMicros <;> simp

/-- An error whose message begins with the name of a field. -/
def Names (field : QueryField) (e : ViewError) : Prop :=
  ∃ message, e = .invalidArgument (field.name ++ message)

theorem names_append {field : QueryField} {words : String} (rest : String)
    (begins : words = field.name ++ rest) (tail : String) :
    Names field (.invalidArgument (words ++ tail)) :=
  ⟨rest ++ tail, by rw [begins, String.append_assoc]⟩

theorem names_tooLarge (text : String) : Names .timeout (Timeout.tooLarge text) := by
  unfold Timeout.tooLarge
  rw [String.append_assoc]
  exact names_append " " rfl _

/-- A timeout is complained about as such. -/
theorem names_of_toMicros {timeout : Timeout} {e : ViewError} (h : timeout.toMicros = .error e) :
    Names .timeout e := by
  cases timeout with
  | duration d =>
      simp only [Timeout.toMicros] at h
      split at h
      · cases h
      · cases h
        exact names_tooLarge _
  | seconds n =>
      simp only [Timeout.toMicros] at h
      split at h
      · cases h
        exact names_append " must be non-negative, got " rfl _
      · split at h
        · cases h
        · cases h
          exact names_tooLarge _
  | fractional x =>
      simp only [Timeout.toMicros, Timeout.fractionalMicros] at h
      repeat' split at h
      all_goals cases h
      any_goals exact names_tooLarge _
      all_goals exact names_append " must be a finite non-negative number, got " rfl _

theorem names_of_offence? {o : QueryOptions} {field : QueryField} {e : ViewError}
    (h : o.offence? field = some e) : Names field e := by
  have count : ∀ {field : QueryField} {n : Option Int},
      n.bind (countOffence? field) = some e → Names field e := by
    intro field n h
    obtain ⟨n, -, h⟩ := Option.bind_eq_some_iff.mp h
    unfold countOffence? at h
    split at h
    · cases h
    · cases h
      exact names_append " must be between 0 and 4294967295, got " rfl _
  cases field
  case groupLevel => exact count h
  case limit => exact count h
  case skip => exact count h
  case timeout =>
    obtain ⟨timeout, -, h⟩ := Option.bind_eq_some_iff.mp h
    exact names_of_toMicros ((toMicros_eq_error_iff timeout e).mpr h)
  all_goals cases h

end QueryOptions

namespace Query

open QueryOptions (countOffence? timeoutOffence?)

/-- An option is refused for what is wrong with it. -/
theorem mapM_eq_error_iff {α β : Type} {check : α → Except ViewError β}
    {offence? : α → Option ViewError}
    (agrees : ∀ a e, check a = .error e ↔ offence? a = some e) (a : Option α) (e : ViewError) :
    a.mapM check = .error e ↔ a.bind offence? = some e := by
  cases a with
  | none => exact ⟨nofun, nofun⟩
  | some a =>
      rw [Option.bind_some, ← agrees]
      rw [Option.mapM_some]
      cases check a <;> simp [Functor.map, Except.map]

theorem checkCount_eq_error_iff (field : QueryField) (n : Int) (e : ViewError) :
    checkCount field n = .error e ↔ countOffence? field n = some e := by
  have largest : String.ofList (digitChars maxCount) = "4294967295" := by decide +kernel
  have words : field.name ++ " must be between 0 and " ++ "4294967295" ++ ", got " =
      field.name ++ " must be between 0 and 4294967295, got " := by
    rw [String.append_assoc, String.append_assoc]
    rfl
  unfold checkCount countOffence?
  rw [largest, words]
  by_cases h : 0 ≤ n ∧ n ≤ (maxCount : Int)
  · have h' : 0 ≤ n ∧ n ≤ 0xffffffff := h
    simp [h, h']
  · have h' : ¬(0 ≤ n ∧ n ≤ 0xffffffff) := h
    rw [if_neg h, if_neg h']
    simp

section Build

variable {bucketName designDocument viewName : String} {o : QueryOptions} {query : Query}
  {e : ViewError}

/-- What is looked at for errors, in this order. -/
def checked : List QueryField := [.groupLevel, .limit, .skip, .timeout]

/-- The first thing that is wrong is the error. -/
theorem build_eq_error_iff :
    build bucketName designDocument viewName o = .error e ↔
      checked.findSome? o.offence? = some e := by
  have level := mapM_eq_error_iff (checkCount_eq_error_iff .groupLevel) o.groupLevel
  have limit := mapM_eq_error_iff (checkCount_eq_error_iff .limit) o.limit
  have skip := mapM_eq_error_iff (checkCount_eq_error_iff .skip) o.skip
  have timeout := mapM_eq_error_iff QueryOptions.toMicros_eq_error_iff o.timeout
  have passes : ∀ {x : Option ViewError} {α : Type} {checked : Except ViewError α} {a : α},
      (∀ e, checked = .error e ↔ x = some e) → checked = .ok a → x = none := by
    intro x α checked a agrees h
    cases x with
    | none => rfl
    | some e =>
        have refused := (agrees e).mpr rfl
        rw [h] at refused
        cases refused
  unfold build
  simp only [checked, List.findSome?_cons, List.findSome?_nil, QueryOptions.offence?]
  cases hlevel : o.groupLevel.mapM (checkCount .groupLevel) with
  | error e' =>
      simp [(level e').mp hlevel, bind, Except.bind]
  | ok groupLevel =>
  rw [passes level hlevel]
  cases hlimit : o.limit.mapM (checkCount .limit) with
  | error e' => simp [(limit e').mp hlimit, bind, Except.bind]
  | ok limit' =>
  rw [passes limit hlimit]
  cases hskip : o.skip.mapM (checkCount .skip) with
  | error e' => simp [(skip e').mp hskip, bind, Except.bind]
  | ok skip' =>
  rw [passes skip hskip]
  cases htimeout : o.timeout.mapM Timeout.toMicros with
  | error e' => simp [(timeout e').mp htimeout, bind, Except.bind]
  | ok micros =>
  rw [passes timeout htimeout]
  simp [bind, Except.bind, pure, Except.pure]

theorem build_eq_ok_iff :
    (∃ query, build bucketName designDocument viewName o = .ok query) ↔
      (∀ n ∈ o.groupLevel, 0 ≤ n ∧ n ≤ 0xffffffff) ∧ (∀ n ∈ o.limit, 0 ≤ n ∧ n ≤ 0xffffffff) ∧
        (∀ n ∈ o.skip, 0 ≤ n ∧ n ≤ 0xffffffff) ∧
        ∀ t ∈ o.timeout, ∃ micros, t.toMicros = .ok micros := by
  have faultless : (∃ query, build bucketName designDocument viewName o = .ok query) ↔
      checked.findSome? o.offence? = none := by
    cases h : build bucketName designDocument viewName o with
    | ok query =>
        refine ⟨fun _ => ?_, fun _ => ⟨query, rfl⟩⟩
        refine Option.eq_none_iff_forall_ne_some.mpr fun e faulty => ?_
        rw [build_eq_error_iff.mpr faulty] at h
        cases h
    | error e =>
        rw [build_eq_error_iff.mp h]
        exact ⟨nofun, nofun⟩
  have unset : ∀ {α : Type} {a : Option α} {offence? : α → Option ViewError},
      a.bind offence? = none ↔ ∀ x ∈ a, offence? x = none := by
    intro α a offence?
    cases a <;> simp
  rw [faultless, List.findSome?_eq_none_iff]
  simp only [checked, List.forall_mem_cons, QueryOptions.offence?, unset,
    QueryOptions.countOffence?_eq_none_iff, QueryOptions.timeoutOffence?_eq_none_iff]
  simp

theorem exists_mem_paramsOf (bucketName designDocument viewName : String) (o : QueryOptions)
    (micros : Option Nat) (field : QueryField) :
    ∃ param, (field, param) ∈ paramsOf bucketName designDocument viewName o micros := by
  cases field <;> simp [paramsOf, params]

theorem isSome_of_mem_paramsOf {micros : Option Nat} (timed : micros.isSome = o.timeout.isSome)
    {field : QueryField} {param : Option Param}
    (h : (field, param) ∈ paramsOf bucketName designDocument viewName o micros) :
    param.isSome = o.sets field := by
  simp only [paramsOf, params, List.mem_cons, Prod.mk.injEq, List.not_mem_nil, or_false] at h
  rcases h with ⟨rfl, rfl⟩ | ⟨rfl, rfl⟩ | ⟨rfl, rfl⟩ | ⟨rfl, rfl⟩ | ⟨rfl, rfl⟩ | ⟨rfl, rfl⟩ |
    ⟨rfl, rfl⟩ | ⟨rfl, rfl⟩ | ⟨rfl, rfl⟩ | ⟨rfl, rfl⟩ | ⟨rfl, rfl⟩ | ⟨rfl, rfl⟩ | ⟨rfl, rfl⟩ |
    ⟨rfl, rfl⟩ | ⟨rfl, rfl⟩ | ⟨rfl, rfl⟩ | ⟨rfl, rfl⟩ | ⟨rfl, rfl⟩ | ⟨rfl, rfl⟩ | ⟨rfl, rfl⟩ |
    ⟨rfl, rfl⟩ | ⟨rfl, rfl⟩ | ⟨rfl, rfl⟩ <;>
    simp [QueryOptions.sets, timed]

/-- The names in an encoded query are those of what was set. -/
theorem mem_names_iff (h : build bucketName designDocument viewName o = .ok query) {name : String} :
    name ∈ query.encoded.names ↔ ∃ field, o.sets field ∧ field.name = name := by
  obtain ⟨-, timed⟩ := build_timeout h
  unfold EncodedQuery.names
  rw [← Dictionary.isSome_find?_iff]
  constructor
  · intro found
    obtain ⟨param, hparam⟩ := Option.isSome_iff_exists.mp found
    have looked : query.encoded.get? name = some param := hparam
    rw [build_encoded h] at looked
    obtain ⟨field, hname, hmem⟩ := exists_of_get?_encode looked
    exact ⟨field, (isSome_of_mem_paramsOf timed hmem).symm, hname⟩
  · rintro ⟨field, set, rfl⟩
    obtain ⟨param, hmem⟩ := exists_mem_paramsOf bucketName designDocument viewName o
      query.timeoutMicros field
    have found : query.encoded.get? field.name = param := build_get? h hmem
    have some := isSome_of_mem_paramsOf timed hmem
    rw [set, ← found] at some
    exact some

theorem names_perm (h : build bucketName designDocument viewName o = .ok query) :
    query.encoded.names.Perm ((QueryField.all.filter o.sets).map QueryField.name) := by
  have listed : ∀ field, field ∈ QueryField.all := fun field => by cases field <;> decide
  have once : query.encoded.names.Nodup :=
    (List.pairwise_map.mpr query.encoded.params.ascending).imp String.ne_of_lt
  have fieldsOnce : ((QueryField.all.filter o.sets).map QueryField.name).Nodup :=
    (List.Nodup.filter _ (by decide)).map fun _ _ => QueryField.name_injective
  rw [List.perm_ext_iff_of_nodup once fieldsOnce]
  intro name
  simp [mem_names_iff h, listed]

/-- That all of the options can be read from the encoded form of a query, and its names. -/
structure Records (q : EncodedQuery) (bucketName designDocument viewName : String)
    (o : QueryOptions) : Prop extends Encodes q designDocument viewName o where
  bucketName : q.string? QueryField.bucketName = some bucketName
  clientContextId : q.string? QueryField.clientContextId = o.clientContextId
  onError : q.string? QueryField.onError = o.onError.map Vocabulary.token
  scanConsistency : q.string? QueryField.scanConsistency = o.scanConsistency.map Vocabulary.token
  exactGroupLevel : (q.natural? QueryField.groupLevel).map (Int.ofNat ·.toNat) = o.groupLevel
  exactLimit : (q.natural? QueryField.limit).map (Int.ofNat ·.toNat) = o.limit
  exactSkip : (q.natural? QueryField.skip).map (Int.ofNat ·.toNat) = o.skip
  timeout : o.timeout.mapM Timeout.toMicros =
    .ok ((q.natural? QueryField.timeout).map UInt64.toNat)

/-- That what a query keeps beside its encoded form is what is read from that. -/
structure Agrees (query : Query) : Prop where
  bucketName : query.encoded.string? QueryField.bucketName = some query.bucketName
  designDocument : query.encoded.string? QueryField.documentName = some query.designDocument
  viewName : query.encoded.string? QueryField.viewName = some query.viewName
  «namespace» : ((query.encoded.string? QueryField.namespace).mapM Vocabulary.parse).map
    (·.getD Namespace.production) = .ok query.namespace
  order : (query.encoded.string? QueryField.order).mapM Vocabulary.parse = .ok query.order
  onError : (query.encoded.string? QueryField.onError).mapM Vocabulary.parse = .ok query.onError
  scanConsistency : (query.encoded.string? QueryField.scanConsistency).mapM Vocabulary.parse =
    .ok query.scanConsistency
  timeout : (query.encoded.natural? QueryField.timeout).map (Duration.ofMicroseconds ·.toNat) =
    query.timeout
  serializer : query.encoded.serializer? = query.serializer

theorem build_fields (h : build bucketName designDocument viewName o = .ok query) :
    query = ⟨bucketName, designDocument, viewName, o.namespace.getD .production, o.order,
      o.onError, o.scanConsistency, query.timeoutMicros, o.serializer, query.encoded⟩ := by
  obtain ⟨_, _, _, hquery, -⟩ := build_ok h
  have hencoded : query.encoded = _ := congrArg Query.encoded hquery
  rw [hencoded]
  exact hquery

/-- A count that is in range is read back as the number that was given. -/
theorem exact_count {n : Option Int} {encoded : Option UInt64}
    (h : encoded.map UInt64.toNat = n.map Int.toNat)
    (inRange : ∀ c ∈ n, 0 ≤ c ∧ c ≤ 0xffffffff) : encoded.map (Int.ofNat ·.toNat) = n := by
  cases n with
  | none => simpa using h
  | some c =>
      obtain ⟨m, rfl, hm⟩ := Option.map_eq_some_iff.mp h
      have same : Int.ofNat m.toNat = c := by
        rw [hm]
        exact Int.toNat_of_nonneg (inRange c rfl).1
      exact congrArg some same

theorem build_records (h : build bucketName designDocument viewName o = .ok query) :
    Records query.encoded bucketName designDocument viewName o := by
  obtain ⟨level, limit, skip, -⟩ := build_eq_ok_iff.mp ⟨query, h⟩
  obtain ⟨-, -, -, -, -, -, -, micros⟩ := build_ok h
  have encodes := build_encodes h
  constructor
  case toEncodes => exact encodes
  case bucketName =>
      exact string?_of_get? (s := some bucketName) (build_get? h (by simp [paramsOf, params]))
  case clientContextId => exact string?_of_get? (build_get? h (by simp [paramsOf, params]))
  case onError => exact string?_of_get?_map (build_get? h (by simp [paramsOf, params]))
  case scanConsistency => exact string?_of_get?_map (build_get? h (by simp [paramsOf, params]))
  case exactGroupLevel => exact exact_count encodes.groupLevel level
  case exactLimit => exact exact_count encodes.limit limit
  case exactSkip => exact exact_count encodes.skip skip
  case timeout => rw [micros, (build_timeout h).1]

theorem build_agrees (h : build bucketName designDocument viewName o = .ok query) :
    Agrees query := by
  have records := build_records h
  have timed := (build_timeout h).1
  have fields := build_fields h
  rw [fields]
  constructor
  case bucketName => exact records.bucketName
  case designDocument => exact records.documentName
  case viewName => exact records.viewName
  case «namespace» =>
      simp only [records.namespace, Vocabulary.mapM_parse_token]
      rfl
  case order => simp only [records.order, Vocabulary.mapM_parse_token]
  case onError => simp only [records.onError, Vocabulary.mapM_parse_token]
  case scanConsistency => simp only [records.scanConsistency, Vocabulary.mapM_parse_token]
  case timeout =>
      unfold Query.timeout
      simp only [← timed, Option.map_map, Function.comp_def]
  case serializer => exact records.serializer

end Build

section Sample

/-- Settings of each kind, two of them at the edge of what is allowed. -/
def sampleOptions : QueryOptions where
  debug := some false
  keys := some [.bool true, .null]
  limit := some 0xffffffff
  skip := some 0
  «namespace» := some .development
  onError := some .proceed
  timeout := some (.seconds 20)

end Sample

/-- Building a query checks and encodes exactly what was set. It is built if the counts that are
set fit 32 bits and the timeout, if there is one, comes to microseconds. Otherwise the error is
what is wrong with the first of group level, limit, skip and timeout with which anything is, and
names it. The encoded form of a query that is built has the names of bucket, design document and
view, and what was set, each under its own name and nothing else. All of it is read back as it
was given, and what is kept beside the encoded form is what is read from there. -/
theorem build_faithful (bucketName designDocument viewName : String) (o : QueryOptions) :
    ((∃ query, build bucketName designDocument viewName o = .ok query) ↔
      (∀ n ∈ o.groupLevel, 0 ≤ n ∧ n ≤ 0xffffffff) ∧ (∀ n ∈ o.limit, 0 ≤ n ∧ n ≤ 0xffffffff) ∧
        (∀ n ∈ o.skip, 0 ≤ n ∧ n ≤ 0xffffffff) ∧
        ∀ t ∈ o.timeout, ∃ micros, t.toMicros = .ok micros) ∧
      (∀ e, build bucketName designDocument viewName o = .error e ↔
        [QueryField.groupLevel, .limit, .skip, .timeout].findSome? o.offence? = some e) ∧
      (∀ field e, o.offence? field = some e →
        ∃ message, e = .invalidArgument (field.name ++ message)) ∧
      ∀ query, build bucketName designDocument viewName o = .ok query →
        query.encoded.names.Perm ((QueryField.all.filter o.sets).map QueryField.name) ∧
          Records query.encoded bucketName designDocument viewName o ∧ Agrees query := by
  refine ⟨build_eq_ok_iff, fun e => build_eq_error_iff, ?_, ?_⟩
  · intro field e offends
    exact QueryOptions.names_of_offence? offends
  · intro query built
    exact ⟨names_perm built, build_records built, build_agrees built⟩

/-- Of two options that are wrong the one that is looked at first is the error, and without them
there are ten names. -/
theorem build_faithful_sample :
    build "default" "people" "by_age"
        { sampleOptions with skip := some (-1), limit := some 0x100000000 } =
      .error (.invalidArgument "limit must be between 0 and 4294967295, got 4294967296") ∧
    ∃ query, build "default" "people" "by_age" sampleOptions = .ok query ∧
      query.encoded.names.Perm ["bucket_name", "document_name", "view_name", "namespace", "debug",
        "keys", "limit", "on_error", "skip", "timeout"] ∧
      query.encoded.strings? QueryField.keys = some ["true", "null"] ∧
      query.timeout = some (.ofMicroseconds 20000000) := by
  constructor
  · obtain ⟨-, refused, -⟩ := build_faithful "default" "people" "by_age"
      { sampleOptions with skip := some (-1), limit := some 0x100000000 }
    exact (refused _).mpr (by decide +kernel)
  · obtain ⟨built, -, -, faithful⟩ := build_faithful "default" "people" "by_age" sampleOptions
    have allowed : ∀ n ∈ sampleOptions.limit, 0 ≤ n ∧ n ≤ 0xffffffff := by simp [sampleOptions]
    have skipped : ∀ n ∈ sampleOptions.skip, 0 ≤ n ∧ n ≤ 0xffffffff := by simp [sampleOptions]
    have timed : ∀ t ∈ sampleOptions.timeout, ∃ micros, t.toMicros = .ok micros := by
      intro t ht
      obtain rfl : Timeout.seconds 20 = t := Option.some.inj ht
      exact ⟨20000000, rfl⟩
    obtain ⟨query, h⟩ := built.mpr ⟨nofun, allowed, skipped, timed⟩
    obtain ⟨names, records, agrees⟩ := faithful query h
    refine ⟨query, h, names, records.keys, ?_⟩
    have micros : (query.encoded.natural? QueryField.timeout).map UInt64.toNat = some 20000000 :=
      (Except.ok.inj records.timeout).symm
    obtain ⟨n, hn, hmicros⟩ := Option.map_eq_some_iff.mp micros
    rw [← agrees.timeout, hn, Option.map_some, hmicros]

end Query

end DocViews
