import DocViews.Proofs.Dictionary
import DocViews.Query.Build

/-!
What can be read from the encoded form of a query: under the name of each field the
parameter that was set for it, and so every option as it was given.
-/

namespace DocViews

namespace QueryField

def all : List QueryField := [
  .bucketName, .documentName, .viewName, .namespace, .clientContextId, .debug, .endKey,
  .endKeyDocId, .group, .groupLevel, .inclusiveEnd, .key, .keys, .limit, .onError, .order,
  .reduce, .scanConsistency, .serializer, .skip, .startKey, .startKeyDocId, .timeout]

def ofName? (name : String) : Option QueryField := all.find? (·.name == name)

theorem ofName?_name (field : QueryField) : ofName? field.name = some field := by
  cases field <;> rfl

theorem name_injective {field other : QueryField} (h : field.name = other.name) :
    field = other := by
  have hname := ofName?_name other
  rw [← h, ofName?_name] at hname
  exact Option.some.inj hname

end QueryField

namespace Query

/-- The parameters put into a dictionary one after another. -/
def encodeInto (entries : Dictionary Param) (params : List (QueryField × Option Param)) :
    Dictionary Param :=
  (params.filterMap fun (field, param) => param.map (field.name, ·)).foldl
    (fun entries pair => Dictionary.insert pair.1 pair.2 entries) entries

theorem encodeInto_cons (entries : Dictionary Param) (field : QueryField) (param : Option Param)
    (params : List (QueryField × Option Param)) :
    encodeInto entries ((field, param) :: params) =
      encodeInto (param.elim entries fun p => Dictionary.insert field.name p entries) params := by
  cases param <;> rfl

theorem find?_encodeInto_of_notMem {field : QueryField} {params : List (QueryField × Option Param)}
    (h : field ∉ params.map (·.1)) (entries : Dictionary Param) :
    Dictionary.find? field.name (encodeInto entries params) =
      Dictionary.find? field.name entries := by
  induction params generalizing entries with
  | nil => rfl
  | cons head params ih =>
      obtain ⟨other, param⟩ := head
      simp only [List.map_cons, List.mem_cons, not_or] at h
      rw [encodeInto_cons, ih h.2]
      cases param with
      | none => rfl
      | some p =>
          have hname : other.name ≠ field.name := fun heq =>
            h.1 (QueryField.name_injective heq.symm)
          exact Dictionary.find?_insert_of_ne hname p entries

theorem find?_encodeInto {field : QueryField} {param : Option Param}
    {params : List (QueryField × Option Param)} (distinct : (params.map (·.1)).Nodup)
    (h : (field, param) ∈ params) (entries : Dictionary Param) :
    Dictionary.find? field.name (encodeInto entries params) =
      param.or (Dictionary.find? field.name entries) := by
  induction params generalizing entries with
  | nil => cases h
  | cons head params ih =>
      obtain ⟨other, first⟩ := head
      rw [List.map_cons, List.nodup_cons] at distinct
      rw [encodeInto_cons]
      rcases List.mem_cons.mp h with heq | hmem
      · -- What is set here is not set again, since the fields are distinct.
        cases heq
        rw [find?_encodeInto_of_notMem distinct.1]
        cases param with
        | none => rfl
        | some p => exact Dictionary.find?_insert_self field.name p entries
      · rw [ih distinct.2 hmem]
        have hne : other ≠ field := by
          rintro rfl
          exact distinct.1 (List.mem_map.mpr ⟨_, hmem, rfl⟩)
        cases first with
        | none => rfl
        | some p =>
            have hname : other.name ≠ field.name := fun heq => hne (QueryField.name_injective heq)
            exact congrArg param.or (Dictionary.find?_insert_of_ne hname p entries)

/-- Each parameter is found under the name of its field, if it was set. -/
theorem get?_encode {field : QueryField} {param : Option Param}
    {params : List (QueryField × Option Param)} (distinct : (params.map (·.1)).Nodup)
    (h : (field, param) ∈ params) : (encode params).get? field.name = param := by
  have hfind := find?_encodeInto distinct h .empty
  have hempty : Dictionary.find? field.name (.empty : Dictionary Param) = none := rfl
  rw [hempty, Option.or_none] at hfind
  exact hfind

theorem find?_encodeInto_cases {name : String} {param : Param}
    {params : List (QueryField × Option Param)} {entries : Dictionary Param}
    (h : Dictionary.find? name (encodeInto entries params) = some param) :
    (∃ field, field.name = name ∧ (field, some param) ∈ params) ∨
      Dictionary.find? name entries = some param := by
  induction params generalizing entries with
  | nil => exact .inr h
  | cons head params ih =>
      obtain ⟨field, first⟩ := head
      rw [encodeInto_cons] at h
      rcases ih h with ⟨other, hname, hmem⟩ | before
      · exact .inl ⟨other, hname, List.mem_cons_of_mem _ hmem⟩
      · cases first with
        | none => exact .inr before
        | some p =>
            simp only [Option.elim, Dictionary.find?_insert] at before
            split at before
            · next hname =>
                cases before
                exact .inl ⟨field, hname, List.mem_cons_self⟩
            · exact .inr before

/-- Nothing is found but what was set. -/
theorem exists_of_get?_encode {name : String} {param : Param}
    {params : List (QueryField × Option Param)} (h : (encode params).get? name = some param) :
    ∃ field, field.name = name ∧ (field, some param) ∈ params := by
  have found : Dictionary.find? name (encodeInto .empty params) = some param := h
  rcases find?_encodeInto_cases found with set | before
  · exact set
  · cases before

section Params

variable (bucketName designDocument viewName : String) (options : QueryOptions)
  (groupLevel limit skip timeoutMicros : Option Nat)

theorem params_distinct :
    ((params bucketName designDocument viewName options groupLevel limit skip
      timeoutMicros).map (·.1)).Nodup := by
  have hfields : (params bucketName designDocument viewName options groupLevel limit skip
      timeoutMicros).map (·.1) = [.bucketName, .documentName, .viewName, .namespace,
        .clientContextId, .debug, .key, .keys, .startKey, .endKey, .startKeyDocId, .endKeyDocId,
        .inclusiveEnd, .group, .groupLevel, .limit, .skip, .reduce, .order, .onError,
        .scanConsistency, .timeout, .serializer] := rfl
  rw [hfields]
  decide

end Params

theorem checkCount_ok {field : QueryField} {n : Int} {count : Nat}
    (h : checkCount field n = .ok count) : count = n.toNat ∧ count ≤ maxCount := by
  unfold checkCount at h
  split at h
  · next hrange =>
      cases h
      exact ⟨rfl, by omega⟩
  · cases h

/-- An option is checked if it is set, and stays unset if it is not. -/
theorem mapM_ok {α β : Type} {check : α → Except ViewError β} {a : Option α} {b : Option β}
    (h : a.mapM check = .ok b) :
    (a = none ∧ b = none) ∨ ∃ x y, a = some x ∧ b = some y ∧ check x = .ok y := by
  cases a with
  | none =>
      cases h
      exact .inl ⟨rfl, rfl⟩
  | some x =>
      cases hcheck : check x with
      | error e => simp [hcheck, Functor.map, Except.map] at h
      | ok y =>
          simp only [Option.mapM_some, hcheck, Functor.map, Except.map, Except.ok.injEq] at h
          exact .inr ⟨x, y, rfl, h.symm, hcheck⟩

theorem mapM_checkCount_ok {field : QueryField} {n : Option Int} {count : Option Nat}
    (h : n.mapM (checkCount field) = .ok count) :
    count = n.map Int.toNat ∧ ∀ c ∈ count, c ≤ maxCount := by
  rcases mapM_ok h with ⟨rfl, rfl⟩ | ⟨n, c, rfl, rfl, hcount⟩
  · exact ⟨rfl, nofun⟩
  · obtain ⟨hvalue, hmax⟩ := checkCount_ok hcount
    refine ⟨congrArg some hvalue, fun c' hc => ?_⟩
    cases hc
    exact hmax

/-- A timeout that is accepted fits 64 bits. -/
theorem toMicros_lt {timeout : Timeout} {micros : Nat} (h : timeout.toMicros = .ok micros) :
    micros < Timeout.limit := by
  cases timeout with
  | duration d =>
      simp only [Timeout.toMicros] at h
      split at h
      · next fits =>
          cases h
          exact fits
      · cases h
  | seconds n =>
      simp only [Timeout.toMicros] at h
      split at h
      · cases h
      · split at h
        · next fits =>
            cases h
            exact fits
        · cases h
  | fractional x =>
      simp only [Timeout.toMicros, Timeout.fractionalMicros] at h
      repeat' split at h
      all_goals cases h
      -- What rounds to the limit was set to one less.
      exact Nat.lt_of_le_of_lt (Nat.min_le_right ..) (Nat.sub_one_lt (by decide))

/-- A query has its options and their encoded form: the counts are kept as they were given, and
fit 32 bits, and the timeout is in the microseconds that it comes to. -/
theorem build_ok {bucketName designDocument viewName : String} {options : QueryOptions}
    {query : Query} (h : build bucketName designDocument viewName options = .ok query) :
    ∃ groupLevel limit skip : Option Nat,
      query = ⟨bucketName, designDocument, viewName, options.namespace.getD .production,
        options.order, options.onError, options.scanConsistency, query.timeoutMicros,
        options.serializer, encode (params bucketName designDocument viewName options groupLevel
          limit skip query.timeoutMicros)⟩ ∧
      (groupLevel = options.groupLevel.map Int.toNat ∧ ∀ n ∈ groupLevel, n ≤ maxCount) ∧
      (limit = options.limit.map Int.toNat ∧ ∀ n ∈ limit, n ≤ maxCount) ∧
      (skip = options.skip.map Int.toNat ∧ ∀ n ∈ skip, n ≤ maxCount) ∧
      options.timeout.mapM Timeout.toMicros = .ok query.timeoutMicros := by
  unfold build at h
  cases hlevel : options.groupLevel.mapM (checkCount .groupLevel) with
  | error e => simp [hlevel, bind, Except.bind] at h
  | ok groupLevel =>
  cases hlimit : options.limit.mapM (checkCount .limit) with
  | error e => simp [hlevel, hlimit, bind, Except.bind] at h
  | ok limit =>
  cases hskip : options.skip.mapM (checkCount .skip) with
  | error e => simp [hlevel, hlimit, hskip, bind, Except.bind] at h
  | ok skip =>
  cases htimeout : options.timeout.mapM Timeout.toMicros with
  | error e => simp [hlevel, hlimit, hskip, htimeout, bind, Except.bind] at h
  | ok micros =>
      simp only [hlevel, hlimit, hskip, htimeout, bind, Except.bind, pure, Except.pure,
        Except.ok.injEq] at h
      subst h
      exact ⟨groupLevel, limit, skip, rfl, mapM_checkCount_ok hlevel, mapM_checkCount_ok hlimit,
        mapM_checkCount_ok hskip, rfl⟩

section Build

variable {bucketName designDocument viewName : String} {options : QueryOptions} {query : Query}

/-- Everything that can be set, with what was set. -/
def paramsOf (bucketName designDocument viewName : String) (options : QueryOptions)
    (timeoutMicros : Option Nat) : List (QueryField × Option Param) :=
  params bucketName designDocument viewName options (options.groupLevel.map Int.toNat)
    (options.limit.map Int.toNat) (options.skip.map Int.toNat) timeoutMicros

theorem build_encoded (h : build bucketName designDocument viewName options = .ok query) :
    query.encoded =
      encode (paramsOf bucketName designDocument viewName options query.timeoutMicros) := by
  obtain ⟨_, _, _, hquery, ⟨rfl, -⟩, ⟨rfl, -⟩, ⟨rfl, -⟩, -⟩ := build_ok h
  exact congrArg encoded hquery

theorem build_get? (h : build bucketName designDocument viewName options = .ok query)
    {field : QueryField} {param : Option Param}
    (set : (field, param) ∈
      paramsOf bucketName designDocument viewName options query.timeoutMicros) :
    query.encoded.get? field.name = param := by
  rw [build_encoded h]
  exact get?_encode (params_distinct ..) set

end Build

/-- What a server reads from the encoded form of a query with these options. -/
structure Encodes (q : EncodedQuery) (designDocument viewName : String)
    (options : QueryOptions) : Prop where
  documentName : q.string? QueryField.documentName = some designDocument
  viewName : q.string? QueryField.viewName = some viewName
  «namespace» : q.string? QueryField.namespace = options.namespace.map Vocabulary.token
  debug : q.bool? QueryField.debug = options.debug
  key : q.string? QueryField.key = options.key.map (·.text)
  keys : q.strings? QueryField.keys = options.keys.map fun keys => keys.map (·.text)
  startKey : q.string? QueryField.startKey = options.startKey.map (·.text)
  endKey : q.string? QueryField.endKey = options.endKey.map (·.text)
  startKeyDocId : q.string? QueryField.startKeyDocId = options.startKeyDocId
  endKeyDocId : q.string? QueryField.endKeyDocId = options.endKeyDocId
  inclusiveEnd : q.bool? QueryField.inclusiveEnd = options.inclusiveEnd
  group : q.bool? QueryField.group = options.group
  groupLevel : (q.natural? QueryField.groupLevel).map UInt64.toNat =
    options.groupLevel.map Int.toNat
  limit : (q.natural? QueryField.limit).map UInt64.toNat = options.limit.map Int.toNat
  skip : (q.natural? QueryField.skip).map UInt64.toNat = options.skip.map Int.toNat
  reduce : q.bool? QueryField.reduce = options.reduce
  order : q.string? QueryField.order = options.order.map Vocabulary.token
  serializer : q.serializer? = options.serializer

section Read

variable {q : EncodedQuery} {field : QueryField}

theorem string?_of_get? {s : Option String} (h : q.get? field.name = s.map .string) :
    q.string? field = s := by
  unfold EncodedQuery.string?
  rw [h]
  cases s <;> rfl

theorem string?_of_get?_map {α : Type} {a : Option α} {text : α → String}
    (h : q.get? field.name = a.map (.string <| text ·)) : q.string? field = a.map text := by
  unfold EncodedQuery.string?
  rw [h]
  cases a <;> rfl

theorem bool?_of_get? {b : Option Bool} (h : q.get? field.name = b.map .bool) :
    q.bool? field = b := by
  unfold EncodedQuery.bool?
  rw [h]
  cases b <;> rfl

theorem strings?_of_get?_map {α : Type} {a : Option α} {texts : α → List String}
    (h : q.get? field.name = a.map (.strings <| texts ·)) : q.strings? field = a.map texts := by
  unfold EncodedQuery.strings?
  rw [h]
  cases a <;> rfl

/-- A number that fits 64 bits is not changed by being kept in them. -/
theorem natural?_of_get? {n : Option Nat} (h : q.get? field.name = n.map (.natural <| .ofNat ·))
    (fits : ∀ c ∈ n, c < Timeout.limit) : (q.natural? field).map UInt64.toNat = n := by
  unfold EncodedQuery.natural?
  rw [h]
  cases n with
  | none => rfl
  | some c =>
      have hvalue : (UInt64.ofNat c).toNat = c := UInt64.toNat_ofNat_of_lt' (fits c rfl)
      exact congrArg some hvalue

theorem fits_of_le_maxCount {n : Option Nat} (small : ∀ c ∈ n, c ≤ maxCount) :
    ∀ c ∈ n, c < Timeout.limit :=
  fun c hc => Nat.lt_of_le_of_lt (small c hc) (by decide)

end Read

/-- Everything that was set is read back as it was set. -/
theorem build_encodes {bucketName designDocument viewName : String} {options : QueryOptions}
    {query : Query} (h : build bucketName designDocument viewName options = .ok query) :
    Encodes query.encoded designDocument viewName options := by
  obtain ⟨_, _, _, -, ⟨rfl, levelSmall⟩, ⟨rfl, limitSmall⟩, ⟨rfl, skipSmall⟩, -⟩ := build_ok h
  have hget : ∀ {field : QueryField} {param : Option Param},
      (field, param) ∈ paramsOf bucketName designDocument viewName options query.timeoutMicros →
        query.encoded.get? field.name = param := build_get? h
  constructor
  case documentName =>
      exact string?_of_get? (s := some designDocument) (hget (by simp [paramsOf, params]))
  case viewName =>
      exact string?_of_get? (s := some viewName) (hget (by simp [paramsOf, params]))
  case «namespace» => exact string?_of_get?_map (hget (by simp [paramsOf, params]))
  case debug => exact bool?_of_get? (hget (by simp [paramsOf, params]))
  case key => exact string?_of_get?_map (hget (by simp [paramsOf, params]))
  case keys => exact strings?_of_get?_map (hget (by simp [paramsOf, params]))
  case startKey => exact string?_of_get?_map (hget (by simp [paramsOf, params]))
  case endKey => exact string?_of_get?_map (hget (by simp [paramsOf, params]))
  case startKeyDocId => exact string?_of_get? (hget (by simp [paramsOf, params]))
  case endKeyDocId => exact string?_of_get? (hget (by simp [paramsOf, params]))
  case inclusiveEnd => exact bool?_of_get? (hget (by simp [paramsOf, params]))
  case group => exact bool?_of_get? (hget (by simp [paramsOf, params]))
  case groupLevel =>
      exact natural?_of_get? (hget (by simp [paramsOf, params])) (fits_of_le_maxCount levelSmall)
  case limit =>
      exact natural?_of_get? (hget (by simp [paramsOf, params])) (fits_of_le_maxCount limitSmall)
  case skip =>
      exact natural?_of_get? (hget (by simp [paramsOf, params])) (fits_of_le_maxCount skipSmall)
  case reduce => exact bool?_of_get? (hget (by simp [paramsOf, params]))
  case order => exact string?_of_get?_map (hget (by simp [paramsOf, params]))
  case serializer =>
      have hserializer : query.encoded.get? QueryField.serializer.name =
          options.serializer.map .serializer := hget (by simp [paramsOf, params])
      unfold EncodedQuery.serializer? EncodedQuery.serializerAt?
      rw [hserializer]
      cases options.serializer <;> rfl

/-- The timeout of a query is read back in microseconds, if there is one. -/
theorem build_timeout {bucketName designDocument viewName : String} {options : QueryOptions}
    {query : Query} (h : build bucketName designDocument viewName options = .ok query) :
    (query.encoded.natural? QueryField.timeout).map UInt64.toNat = query.timeoutMicros ∧
      query.timeoutMicros.isSome = options.timeout.isSome := by
  obtain ⟨-, -, -, -, -, -, -, htimeout⟩ := build_ok h
  have hget : query.encoded.get? QueryField.timeout.name =
      query.timeoutMicros.map (.natural <| .ofNat ·) :=
    build_get? h (by simp [paramsOf, params])
  rcases mapM_ok htimeout with ⟨unset, unset'⟩ | ⟨timeout, micros, set, set', hmicros⟩
  · rw [unset'] at hget ⊢
    exact ⟨natural?_of_get? hget nofun, by rw [unset]; rfl⟩
  · rw [set'] at hget ⊢
    refine ⟨natural?_of_get? hget fun c hc => ?_, by rw [set]; rfl⟩
    cases hc
    exact toMicros_lt hmicros

end Query

end DocViews
