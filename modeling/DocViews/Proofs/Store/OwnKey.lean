import DocViews.Proofs.Json.Survival
import DocViews.Proofs.Query.Building
import DocViews.Proofs.Store.Ranges
import DocViews.Proofs.Totals

/-!
Asking for an entry by its own key. The store compares keys with what it reads from the text that
the query spells out, so an entry is found under its key, and from or up to it, if its key ties
with what its text is read as. That is the case unless a float in the key is read as another one.
-/

namespace DocViews

namespace QueryOptions

variable {o : QueryOptions} {index : Index}

/-- Options that select by a key and by bounds which belong to the range, if by anything, and do
not reduce. -/
structure SelectsByKey (o : QueryOptions) : Prop where
  unlisted : o.keys = none
  startKeyDocId : o.startKeyDocId = none
  endKeyDocId : o.endKeyDocId = none
  inclusive : o.inclusiveEnd ≠ some false
  unreduced : o.reduce = some false
  skip : o.skip = none
  limit : o.limit = none

/-- Options that select everything, and do not reduce. -/
structure SelectsAll (o : QueryOptions) : Prop extends SelectsByKey o where
  key : o.key = none
  startKey : o.startKey = none
  endKey : o.endKey = none

theorem SelectsByKey.withKeys (byKey : o.SelectsByKey) (key startKey endKey : Option Json.Value) :
    ({ o with key, startKey, endKey } : QueryOptions).SelectsByKey := { byKey with }

theorem inclusiveEnd_getD (inclusive : o.inclusiveEnd ≠ some false) :
    o.inclusiveEnd.getD true = true := by
  rcases h : o.inclusiveEnd with _ | _ | _
  · rfl
  · exact absurd h inclusive
  · rfl

theorem mem_selected_iff (byKey : o.SelectsByKey) {e : Entry} :
    e ∈ o.selected index ↔
      e ∈ index.entries ∧ (∀ key ∈ o.key, collate e.key key = .eq) ∧
        (∀ key ∈ o.startKey, o.direction.turn (collate e.key key) ≠ .lt) ∧
        ∀ key ∈ o.endKey, o.direction.turn (collate e.key key) ≠ .gt := by
  have position : ∀ key,
      (Bound.mk key none).position o.direction e = o.direction.turn (collate e.key key) :=
    fun key => Bound.position_key rfl o.direction e
  have admitsKey : Selection.admitsKey o.key e = true ↔
      ∀ key ∈ o.key, collate e.key key = .eq := by
    cases o.key <;> simp [Selection.admitsKey, sameKey]
  have admitsStart : Selection.admitsStart (o.startKey.map (⟨·, none⟩)) o.direction e = true ↔
      ∀ key ∈ o.startKey, o.direction.turn (collate e.key key) ≠ .lt := by
    cases o.startKey <;> simp [Selection.admitsStart, position]
  have admitsStop : Selection.admitsStop (o.endKey.map (⟨·, none⟩)) true o.direction e = true ↔
      ∀ key ∈ o.endKey, o.direction.turn (collate e.key key) ≠ .gt := by
    cases o.endKey <;> simp [Selection.admitsStop, position]
  rw [selected_of_unlisted byKey.unlisted, List.mem_filter, ← scan_direction,
    (index.scan_perm _).mem_iff, ← range_admits, byKey.startKeyDocId, byKey.endKeyDocId,
    inclusiveEnd_getD byKey.inclusive]
  simp only [Bool.and_eq_true, admitsKey, admitsStart, admitsStop, and_assoc]

end QueryOptions

theorem Entry.toRow_injective : Function.Injective Entry.toRow := by
  intro a b same
  rw [QueryOptions.toRow_eq_toValue, QueryOptions.toRow_eq_toValue] at same
  have rows := congrArg Row.ofValue same
  rw [Row.ofValue_toValue, Row.ofValue_toValue] at rows
  cases a
  cases b
  cases rows
  rfl

namespace Store

variable {store : Store} {bucketName designDocument viewName : String} {o : QueryOptions}
  {q : EncodedQuery} {index : Index} {e : Entry} {key startKey endKey : Option Json.Value}

/-- Whether a key is read from the text of another, if there is one. -/
def ReadsAs : Option Json.Value → Option Json.Value → Prop :=
  Option.Rel fun given read => Json.readString given.text = .ok read

theorem rel_of_readsAs {text : Option String} {given read : Option Json.Value}
    (sent : text = given.map (·.text)) (reads : ReadsAs given read) :
    Option.Rel (Json.readString · = .ok ·) text read := by
  rw [sent]
  cases reads with
  | none => exact .none
  | some h => exact .some h

/-- What the options of a query ask for if its keys are taken as they are read. -/
theorem asksAll (encodes : Query.Encodes q designDocument viewName o) (byKey : o.SelectsByKey)
    (found : store.index? (o.qualified designDocument) viewName = some index)
    (readsKey : ReadsAs o.key key) (readsStart : ReadsAs o.startKey startKey)
    (readsEnd : ReadsAs o.endKey endKey) :
    AsksAll store.documents q index { o with key, startKey, endKey } := by
  have located : indexOf store.documents q = .ok index := by
    unfold indexOf viewNameOf
    rw [encodes.namespaceOf_ok, encodes.documentName, encodes.viewName]
    exact locate_of_index? found
  have order : q.string? QueryField.order = some (Vocabulary.token Direction.descending) ↔
      o.descending := by
    rw [encodes.order, QueryOptions.descending]
    rcases o.order with _ | _ | _ <;> decide
  have unset : ∀ {n : Option UInt64}, n.map UInt64.toNat = (none : Option Int).map Int.toNat →
      n = none := by
    intro n h
    cases n with
    | none => rfl
    | some n => cases h
  constructor
  case located => exact located
  case unreduced => exact .inl (encodes.reduce.trans byKey.unreduced)
  case skipsNothing => exact unset (by rw [encodes.skip, byKey.skip])
  case unlimited => exact unset (by rw [encodes.limit, byKey.limit])
  case spells =>
    constructor
    case unlisted => exact ⟨by rw [encodes.keys, byKey.unlisted]; rfl, byKey.unlisted⟩
    case key => exact rel_of_readsAs encodes.key readsKey
    case startKey => exact rel_of_readsAs encodes.startKey readsStart
    case endKey => exact rel_of_readsAs encodes.endKey readsEnd
    case startKeyDocId => exact fun _ => encodes.startKeyDocId
    case endKeyDocId => exact fun _ => encodes.endKeyDocId
    case inclusiveEnd => rw [encodes.inclusiveEnd]
    case order => exact order

/-- Whether a query with these options is built, and a store has these rows for it. They are
streamed to their end unless a failure is armed. -/
def Answers (store : Store) (bucketName designDocument viewName : String) (o : QueryOptions)
    (rows : List Json.Value) : Prop :=
  ∃ query, Query.build bucketName designDocument viewName o = .ok query ∧
    rowsOf store.documents query.encoded = .ok rows ∧
    (store.failNextSubmit = none → store.failStreamAfter = none → ∀ timeout, ∃ trailer,
      (store.submit query.encoded timeout).outcome =
        .ok (.whole (rows.map Json.Value.bytes) trailer))

/-- A query by keys is answered with the entries that have them as they are read. -/
theorem answers_of_reads (byKey : o.SelectsByKey)
    (built : ∃ query, Query.build bucketName designDocument viewName o = .ok query)
    (found : store.index? (o.qualified designDocument) viewName = some index)
    {asked askedStart askedEnd : Option Json.Value} (readsKey : ReadsAs asked key)
    (readsStart : ReadsAs askedStart startKey) (readsEnd : ReadsAs askedEnd endKey) :
    ∃ rows, Answers store bucketName designDocument viewName
        { o with key := asked, startKey := askedStart, endKey := askedEnd } rows ∧
      ∀ e, e.toRow ∈ rows ↔ e ∈ index.entries ∧ (∀ k ∈ key, collate e.key k = .eq) ∧
        (∀ k ∈ startKey, o.direction.turn (collate e.key k) ≠ .lt) ∧
        ∀ k ∈ endKey, o.direction.turn (collate e.key k) ≠ .gt := by
  -- Keys are not looked at when a query is built.
  obtain ⟨query, h⟩ : ∃ query, Query.build bucketName designDocument viewName
      { o with key := asked, startKey := askedStart, endKey := askedEnd } = .ok query :=
    Query.build_eq_ok_iff.mpr ((Query.build_eq_ok_iff (o := o)).mp built)
  have asks := asksAll (Query.build_encodes h) (byKey.withKeys ..) found readsKey readsStart
    readsEnd
  have answered := asks.rowsOf
  refine ⟨_, ⟨query, h, answered, ?_⟩, fun e => ?_⟩
  · intro accepts lasts timeout
    obtain ⟨r, replied, rows⟩ := exists_reply answered
    refine ⟨r.trailer.bytes, ?_⟩
    rw [submit_reply accepts lasts replied, rows]
  · rw [List.mem_map_of_injective Entry.toRow_injective]
    exact QueryOptions.mem_selected_iff (byKey.withKeys key startKey endKey)

section Sample

/-- A view with one entry, which has this key. -/
def soleEntry (key : Json.Value) : Entry := ⟨"a", key, .null⟩

def soleStore (key : Json.Value) : Store where
  documents := .ofPairs [("d", .ofPairs [("v", ⟨[soleEntry key], none⟩)])]

/-- Without a selection, and not reduced. -/
def wholeView : QueryOptions := { reduce := some false }

theorem wholeView_selectsAll : wholeView.SelectsAll :=
  ⟨⟨rfl, rfl, rfl, nofun, rfl, rfl, rfl⟩, rfl, rfl, rfl⟩

theorem index?_soleStore (key : Json.Value) :
    (soleStore key).index? (wholeView.qualified "d") "v" = some ⟨[soleEntry key], none⟩ := rfl

theorem build_wholeView : ∃ query, Query.build "b" "d" "v" wholeView = .ok query := ⟨_, rfl⟩

/-- The float with the value 1801439850948199. -/
def lostFloat : Json.Value := .number (.float ⟨false, 0x431999999999999c, by decide⟩)

/-- The float that a tenth is rounded to, and an integer with more digits than a float has. -/
def keptKey : Json.Value :=
  .array [.number (.float ⟨false, 0x3fb999999999999a, by decide⟩), .number nextInteger]

end Sample

/-- An entry is asked for under its own key, or from it or up to it, with nothing else selected
and no reduction. The query is built and answered. The text of the key is read as the key with
each number as that number is read from its text, and the entry is among the rows under the key if
all numbers of it become the same float then, and only then; it is among the rows from there if
what is read does not come behind its key in the order of the query, and among the rows up to
there if it does not come before. So it is among all of these if every float in the key has few
enough digits; integers always do. -/
theorem answers_ownKey (all : o.SelectsAll)
    (built : ∃ query, Query.build bucketName designDocument viewName o = .ok query)
    (found : store.index? (o.qualified designDocument) viewName = some index)
    (held : e ∈ index.entries) (nested : Json.Nested Json.maxLevels e.key) :
    ∃ read under starting ending,
      Json.readString e.key.text = .ok read ∧ e.key.Rereads read ∧
        Answers store bucketName designDocument viewName { o with key := some e.key } under ∧
        Answers store bucketName designDocument viewName
          { o with startKey := some e.key } starting ∧
        Answers store bucketName designDocument viewName { o with endKey := some e.key } ending ∧
        (e.toRow ∈ under ↔ ∀ n, e.key.Has n → n.Survives) ∧
        (e.toRow ∈ starting ↔ o.direction.turn (collate e.key read) ≠ .lt) ∧
        (e.toRow ∈ ending ↔ o.direction.turn (collate e.key read) ≠ .gt) ∧
        (e.toRow ∈ under ↔ e.toRow ∈ starting ∧ e.toRow ∈ ending) ∧
        ((∀ x, e.key.Has (.float x) → Json.Short x) →
          e.toRow ∈ under ∧ e.toRow ∈ starting ∧ e.toRow ∈ ending) := by
  obtain ⟨read, back, rereads⟩ := nested.readAs
  have reads : ReadsAs (some e.key) (some read) := .some back.readString
  have noKey : ReadsAs o.key none := all.key ▸ .none
  have noStart : ReadsAs o.startKey none := all.startKey ▸ .none
  have noEnd : ReadsAs o.endKey none := all.endKey ▸ .none
  obtain ⟨under, answersKey, memUnder⟩ :=
    answers_of_reads all.toSelectsByKey built found reads noStart noEnd
  obtain ⟨starting, answersStart, memStarting⟩ :=
    answers_of_reads all.toSelectsByKey built found noKey reads noEnd
  obtain ⟨ending, answersEnd, memEnding⟩ :=
    answers_of_reads all.toSelectsByKey built found noKey noStart reads
  have ties : collate e.key read = .eq ↔ ∀ n, e.key.Has n → n.Survives := rereads.collate_eq_iff
  have underIff : e.toRow ∈ under ↔ collate e.key read = .eq := by simp [memUnder, held]
  have startingIff : e.toRow ∈ starting ↔ o.direction.turn (collate e.key read) ≠ .lt := by
    simp [memStarting, held]
  have endingIff : e.toRow ∈ ending ↔ o.direction.turn (collate e.key read) ≠ .gt := by
    simp [memEnding, held]
  have between : collate e.key read = .eq ↔
      o.direction.turn (collate e.key read) ≠ .lt ∧
        o.direction.turn (collate e.key read) ≠ .gt := by
    cases collate e.key read <;> cases o.direction <;> decide
  have bounded : e.toRow ∈ under ↔ e.toRow ∈ starting ∧ e.toRow ∈ ending := by
    rw [underIff, startingIff, endingIff, between]
  refine ⟨read, under, starting, ending, back.readString, rereads, answersKey, answersStart,
    answersEnd, underIff.trans ties, startingIff, endingIff, bounded, ?_⟩
  intro short
  have survive : ∀ n, e.key.Has n → n.Survives := by
    intro n has
    cases n with
    | integer n => exact Json.Number.survives_integer n
    | float x => exact Json.Number.survives_of_short (short x has)
  have mem := (underIff.trans ties).mpr survive
  exact ⟨mem, bounded.mp mem⟩

/-- Both numbers of this key are read as they are, and its entry is found in each way. -/
theorem answers_ownKey_kept :
    ∃ under starting ending,
      Answers (soleStore keptKey) "b" "d" "v" { wholeView with key := some keptKey } under ∧
        Answers (soleStore keptKey) "b" "d" "v"
          { wholeView with startKey := some keptKey } starting ∧
        Answers (soleStore keptKey) "b" "d" "v" { wholeView with endKey := some keptKey } ending ∧
        (soleEntry keptKey).toRow ∈ under ∧ (soleEntry keptKey).toRow ∈ starting ∧
        (soleEntry keptKey).toRow ∈ ending := by
  have nested : Json.Nested Json.maxLevels keptKey := by
    refine .array fun item hitem => ?_
    simp only [List.mem_cons, List.not_mem_nil, or_false] at hitem
    rcases hitem with rfl | rfl <;> exact .number _
  have short : ∀ x, keptKey.Has (.float x) → Json.Short x := by
    intro x has
    cases has with
    | array mem has =>
        simp only [List.mem_cons, List.not_mem_nil, or_false] at mem
        rcases mem with rfl | rfl
        · cases has
          exact ⟨⟨1, 0, by decide, by decide +kernel⟩, by decide +kernel⟩
        · cases has
  obtain ⟨-, under, starting, ending, -, -, key, start, stop, -, -, -, -, kept⟩ :=
    answers_ownKey wholeView_selectsAll build_wholeView (index?_soleStore keptKey)
      (List.mem_singleton_self _) nested
  exact ⟨under, starting, ending, key, start, stop, kept short⟩

/-- This key is read as a larger number from its text, so its entry is not found under it. -/
theorem answers_without_own :
    Json.Nested Json.maxLevels lostFloat ∧
      (soleStore lostFloat).index? (wholeView.qualified "d") "v" =
        some ⟨[soleEntry lostFloat], none⟩ ∧
      ∃ rows, Answers (soleStore lostFloat) "b" "d" "v" { wholeView with key := some lostFloat }
        rows ∧ (soleEntry lostFloat).toRow ∉ rows := by
  have nested : Json.Nested Json.maxLevels lostFloat := .number _
  obtain ⟨read, back, rereads⟩ := nested.readAs
  obtain ⟨rows, answers, mem⟩ :=
    answers_of_reads wholeView_selectsAll.toSelectsByKey build_wholeView
      (index?_soleStore lostFloat) (.some back.readString) .none .none
  refine ⟨nested, index?_soleStore lostFloat, rows, answers, fun found => ?_⟩
  obtain ⟨-, ties, -⟩ := (mem _).mp found
  have survives := rereads.collate_eq_iff.mp (ties read rfl) _ .number
  rw [Json.Number.survives_float_iff] at survives
  exact absurd survives (by decide +kernel)

end Store

end DocViews
