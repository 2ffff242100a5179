import DocViews.Proofs.Query.Range
import DocViews.Proofs.Store.Pages

/-!
The rows that the server has for a range, told by the options whose range a query spells out.
They are those of one segment of the sorted index. Two queries that divide a range at a bound
have its rows between them, first the one and then the other, and a query for the range in the
other order has them the other way round.
-/

namespace DocViews

/-- That a query which lists no keys spells out the range of these options. Any text will do that
reads as the key, and a document means nothing without the key of its bound. -/
structure EncodedQuery.Spells (q : EncodedQuery) (o : QueryOptions) : Prop where
  unlisted : q.strings? QueryField.keys = none ∧ o.keys = none
  key : Option.Rel (Json.readString · = .ok ·) (q.string? QueryField.key) o.key
  startKey : Option.Rel (Json.readString · = .ok ·) (q.string? QueryField.startKey) o.startKey
  endKey : Option.Rel (Json.readString · = .ok ·) (q.string? QueryField.endKey) o.endKey
  startKeyDocId : o.startKey.isSome → q.string? QueryField.startKeyDocId = o.startKeyDocId
  endKeyDocId : o.endKey.isSome → q.string? QueryField.endKeyDocId = o.endKeyDocId
  inclusiveEnd : (q.bool? QueryField.inclusiveEnd).getD true = o.inclusiveEnd.getD true
  order : q.string? QueryField.order = some (Vocabulary.token Direction.descending) ↔ o.descending

/-- Whether the rows for a query on an index are its entries: the query says that they are not to
be reduced, or the view has no reduction and the query asks for none. -/
def EncodedQuery.Unreduced (q : EncodedQuery) (index : Index) : Prop :=
  q.bool? QueryField.reduce = some false ∨
    index.reduction = none ∧ q.bool? QueryField.reduce ≠ some true

namespace EncodedQuery

variable {q : EncodedQuery} {o : QueryOptions} {index : Index}

theorem key?_of_rel {field : QueryField} {key : Option Json.Value}
    (reads : Option.Rel (Json.readString · = .ok ·) (q.string? field) key) :
    Plan.key? q field = .ok key := by
  unfold Plan.key?
  generalize q.string? field = text at reads
  cases reads with
  | none => rfl
  | some h => simp only [h]

/-- What reads as keys is spelled out by some options. -/
theorem exists_rel {field : QueryField}
    (reads : ∀ text ∈ q.string? field, ∃ key, Json.readString text = .ok key) :
    ∃ key : Option Json.Value, Option.Rel (Json.readString · = .ok ·) (q.string? field) key := by
  cases h : q.string? field with
  | none => exact ⟨none, .none⟩
  | some text =>
      obtain ⟨key, hkey⟩ := reads text h
      exact ⟨some key, .some hkey⟩

theorem exists_spells (unlisted : q.strings? QueryField.keys = none)
    (reads : ∀ field ∈ [QueryField.key, .startKey, .endKey], ∀ text ∈ q.string? field,
      ∃ key, Json.readString text = .ok key) : ∃ o, q.Spells o := by
  obtain ⟨key, hkey⟩ := exists_rel (reads .key (by decide))
  obtain ⟨startKey, hstart⟩ := exists_rel (reads .startKey (by decide))
  obtain ⟨endKey, hend⟩ := exists_rel (reads .endKey (by decide))
  let order : Option Direction :=
    if q.string? QueryField.order = some (Vocabulary.token Direction.descending) then
      some .descending
    else none
  refine ⟨{
    key, startKey, endKey, order
    startKeyDocId := q.string? QueryField.startKeyDocId
    endKeyDocId := q.string? QueryField.endKeyDocId
    inclusiveEnd := q.bool? QueryField.inclusiveEnd },
    ⟨unlisted, rfl⟩, hkey, hstart, hend, fun _ => rfl, fun _ => rfl, rfl, ?_⟩
  unfold QueryOptions.descending
  by_cases h : q.string? QueryField.order = some (Vocabulary.token Direction.descending)
  · simp [order, h]
  · simp [order, h]

namespace Spells

/-- What is spelled out reads as keys. -/
theorem reads (spells : q.Spells o) : ∀ field ∈ [QueryField.key, .startKey, .endKey],
    ∀ text ∈ q.string? field, ∃ key, Json.readString text = .ok key := by
  have each : ∀ {field : QueryField} {key : Option Json.Value},
      Option.Rel (Json.readString · = .ok ·) (q.string? field) key →
        ∀ text ∈ q.string? field, ∃ key, Json.readString text = .ok key := by
    intro field key rel text h
    rw [Option.mem_def.mp h] at rel
    cases rel with
    | some read => exact ⟨_, read⟩
  simp only [List.forall_mem_cons]
  exact ⟨each spells.key, each spells.startKey, each spells.endKey, nofun⟩

theorem selectionOf (spells : q.Spells o) : Plan.selectionOf q = .ok o.selection := by
  have bound : ∀ {key : Option Json.Value} {sent docId : Option String},
      (key.isSome → sent = docId) → key.map (Bound.mk · sent) = key.map (Bound.mk · docId) := by
    intro key sent docId same
    cases key with
    | none => rfl
    | some k => rw [same rfl]
  unfold Plan.selectionOf QueryOptions.selection
  rw [spells.unlisted.1, spells.unlisted.2]
  simp only [key?_of_rel spells.key, key?_of_rel spells.startKey, key?_of_rel spells.endKey,
    bound spells.startKeyDocId, bound spells.endKeyDocId, spells.inclusiveEnd, bind, Except.bind]
  rfl

theorem directionOf (spells : q.Spells o) : Plan.directionOf q = o.direction := by
  unfold Plan.directionOf QueryOptions.direction
  by_cases h : q.string? QueryField.order = some (Vocabulary.token Direction.descending)
  · rw [if_pos h, if_pos (spells.order.mp h)]
  · rw [if_neg h, if_neg fun down => h (spells.order.mpr down)]

end Spells

theorem Unreduced.reductionOf (raw : q.Unreduced index) (viewName : String) :
    Plan.reductionOf q viewName index.reduction = .ok none := by
  unfold Plan.reductionOf
  rcases raw with off | ⟨none, unasked⟩
  · rw [off]
    cases index.reduction <;> rfl
  · rw [none]
    rcases h : q.bool? QueryField.reduce with _ | _ | _
    · rfl
    · rfl
    · exact absurd h unasked

end EncodedQuery

namespace Store

variable {documents : Dictionary DesignDocument} {q first second : EncodedQuery} {index : Index}
  {o : QueryOptions} {b : Bound}

/-- What is answered comes from the entries that the options select. -/
theorem rowsOf_spells (located : indexOf documents q = .ok index) (raw : q.Unreduced index)
    (spells : q.Spells o) :
    rowsOf documents q =
      .ok ((Plan.windowOf q).apply ((o.selected index).map Entry.toRow)) := by
  rw [rowsOf_of_selection located spells.selectionOf (raw.reductionOf _), spells.directionOf,
    ← QueryOptions.plan_selected]
  rfl

theorem apply_window (skipsNothing : q.natural? QueryField.skip = none)
    (unlimited : q.natural? QueryField.limit = none) {α : Type} (rows : List α) :
    (Plan.windowOf q).apply rows = rows := by
  rw [Plan.windowOf, skipsNothing, unlimited]
  rfl

/-- A query for all rows of the range of these options, as they are. -/
structure AsksAll (documents : Dictionary DesignDocument) (q : EncodedQuery) (index : Index)
    (o : QueryOptions) : Prop where
  located : indexOf documents q = .ok index
  unreduced : q.Unreduced index
  spells : q.Spells o
  skipsNothing : q.natural? QueryField.skip = none
  unlimited : q.natural? QueryField.limit = none

theorem AsksAll.rowsOf (asks : AsksAll documents q index o) :
    Store.rowsOf documents q = .ok ((o.selected index).map Entry.toRow) := by
  rw [rowsOf_spells asks.located asks.unreduced asks.spells,
    apply_window asks.skipsNothing asks.unlimited]

section Sample

/-- Three documents have the same key. -/
def visitIndex : Index := ⟨[
  ⟨"b", .null, .null⟩,
  ⟨"a", .bool true, .null⟩,
  ⟨"b", .bool true, .null⟩,
  ⟨"c", .bool true, .null⟩], none⟩

def visitDocuments : Dictionary DesignDocument :=
  .ofPairs [("people", .ofPairs [("visits", visitIndex)])]

def visitQuery (params : List (QueryField × Param)) : EncodedQuery :=
  .ofPairs ([("document_name", .string "people"), ("view_name", .string "visits")] ++
    params.map fun (field, param) => (field.name, param))

/-- From the second of these documents down to another key. -/
def visitsDown (inclusive : Bool) : EncodedQuery :=
  visitQuery [(.startKey, .string "true"), (.startKeyDocId, .string "b"),
    (.endKey, .string "null"), (.inclusiveEnd, .bool inclusive),
    (.order, .string "descending")]

/-- The same the other way round. -/
def visitsUp : EncodedQuery :=
  visitQuery [(.startKey, .string "null"), (.endKey, .string "true"), (.endKeyDocId, .string "b")]

/-- The first two of these documents, the end included or not. -/
def visitsUntil (inclusive : Bool) : EncodedQuery :=
  visitQuery [(.startKey, .string "true"), (.endKey, .string "true"),
    (.endKeyDocId, .string "b"), (.inclusiveEnd, .bool inclusive)]

/-- The second of these documents up to the same end. -/
def visitsFrom : EncodedQuery :=
  (visitsUntil true).insert QueryField.startKeyDocId (.string "b")

theorem scan_visits : visitIndex.scan .ascending = visitIndex.entries :=
  List.mergeSort_of_pairwise (by decide +kernel)

theorem selected_visits {o : QueryOptions} (unlisted : o.keys = none)
    (upward : o.direction = .ascending) :
    o.selected visitIndex = visitIndex.entries.filter o.admits := by
  rw [QueryOptions.selected_of_unlisted unlisted, ← QueryOptions.scan_direction, upward,
    scan_visits]

end Sample

/-- The rows of a query that lists no keys, before some are skipped and some cut off. They are
those of the entries that its range admits, which follow one another in the scan; the scan is the
whole index, sorted, or exactly the reverse of that. Without a key and bounds it is all of it. -/
theorem rowsOf_range (located : indexOf documents q = .ok index) (raw : q.Unreduced index)
    (unlisted : q.strings? QueryField.keys = none)
    (reads : ∀ field ∈ [QueryField.key, .startKey, .endKey], ∀ text ∈ q.string? field,
      ∃ key, Json.readString text = .ok key) :
    (∃ o, q.Spells o) ∧ ∀ o, q.Spells o →
      rowsOf documents q = .ok ((Plan.windowOf q).apply
        (((o.scan index).filter o.admits).map Entry.toRow)) ∧
      (o.scan index).filter o.admits <:+: o.scan index ∧
      (o.scan index =
        if o.descending then (index.scan .ascending).reverse else index.scan .ascending) ∧
      (index.scan .ascending).Perm index.entries ∧
      ((index.scan .ascending).Pairwise fun a b =>
        collate a.key b.key = .lt ∨ collate a.key b.key = .eq ∧ a.id ≤ b.id) ∧
      (o.key = none → o.startKey = none → o.endKey = none →
        (o.scan index).filter o.admits = o.scan index) := by
  refine ⟨EncodedQuery.exists_spells unlisted reads, ?_⟩
  intro o spells
  refine ⟨?_, o.filter_admits_infix index, rfl, index.scan_perm .ascending, index.scan_ordered, ?_⟩
  · rw [rowsOf_spells located raw spells, QueryOptions.selected_of_unlisted spells.unlisted.2]
  · intro key start stop
    exact QueryOptions.filter_admits_of_unbounded key start stop index

/-- Its end left out, the range down to another key has two rows. -/
theorem rowsOf_range_visits :
    rowsOf visitDocuments (visitsDown false) =
      .ok [Entry.toRow ⟨"b", .bool true, .null⟩, Entry.toRow ⟨"a", .bool true, .null⟩] := by
  let o : QueryOptions := {
    startKey := some (.bool true), startKeyDocId := some "b", endKey := some .null
    inclusiveEnd := some false, order := some .descending }
  have located : indexOf visitDocuments (visitsDown false) = .ok visitIndex := rfl
  have raw : (visitsDown false).Unreduced visitIndex := .inr ⟨rfl, nofun⟩
  have reads : ∀ field ∈ [QueryField.key, .startKey, .endKey],
      ∀ text ∈ (visitsDown false).string? field, ∃ key, Json.readString text = .ok key := by
    intro field hfield text htext
    simp only [List.mem_cons, List.not_mem_nil, or_false] at hfield
    obtain rfl | rfl | rfl := hfield
    · cases htext
    · obtain rfl : "true" = text := Option.some.inj htext
      exact ⟨.bool true, rfl⟩
    · obtain rfl : "null" = text := Option.some.inj htext
      exact ⟨.null, rfl⟩
  have spells : (visitsDown false).Spells o :=
    ⟨⟨rfl, rfl⟩, .none, .some rfl, .some rfl, fun _ => rfl, fun _ => rfl, rfl, by decide⟩
  obtain ⟨-, rows⟩ := rowsOf_range located raw rfl reads
  obtain ⟨answered, -, scanned, -⟩ := rows o spells
  rw [answered, scanned, scan_visits]
  rfl

/-- A range that is divided at a bound: of two queries one ends before it and the other starts at
it. If the bound does not lie outside of the range, so that neither query finds more than the
range has, then their rows are those of the range. Outside of a range that has no bounds of its
own there is nothing, and without a key it is the whole scan. -/
theorem rowsOf_divided (whole : AsksAll documents q index o)
    (before : AsksAll documents first index (o.endingBefore b))
    (behind : AsksAll documents second index (o.startingAt b)) :
    ∃ front back, rowsOf documents first = .ok front ∧ rowsOf documents second = .ok back ∧
      ((∀ e ∈ (o.endingBefore b).selected index, o.admitsEnd e) →
        (∀ e ∈ (o.startingAt b).selected index, o.admitsStart e) →
          rowsOf documents q = .ok (front ++ back)) ∧
      (o.startKey = none → o.endKey = none → rowsOf documents q = .ok (front ++ back)) ∧
      (o.key = none → o.startKey = none → o.endKey = none →
        front ++ back = (o.scan index).map Entry.toRow) := by
  have unlisted := whole.spells.unlisted.2
  have inside : (∀ e ∈ (o.endingBefore b).selected index, o.admitsEnd e) →
      (∀ e ∈ (o.startingAt b).selected index, o.admitsStart e) →
        (o.endingBefore b).selected index ++ (o.startingAt b).selected index =
          o.selected index := by
    intro ends starts
    exact (QueryOptions.selected_append_iff unlisted b).mpr ⟨ends, starts⟩
  have unbounded : o.startKey = none → o.endKey = none →
      (o.endingBefore b).selected index ++ (o.startingAt b).selected index =
        o.selected index := by
    intro start stop
    apply inside
    · intro e _
      rw [QueryOptions.admitsEnd, stop]
      rfl
    · intro e _
      rw [QueryOptions.admitsStart, start]
      rfl
  refine ⟨_, _, before.rowsOf, behind.rowsOf, ?_, ?_, ?_⟩
  · intro ends starts
    rw [whole.rowsOf, ← inside ends starts, List.map_append]
  · intro start stop
    rw [whole.rowsOf, ← unbounded start stop, List.map_append]
  · intro key start stop
    rw [← List.map_append, unbounded start stop, QueryOptions.selected_of_unlisted unlisted,
      QueryOptions.filter_admits_of_unbounded key start stop]

/-- Divided between its two documents, a range has a row on either side. -/
theorem rowsOf_divided_visits :
    rowsOf visitDocuments (visitsUntil false) = .ok [Entry.toRow ⟨"a", .bool true, .null⟩] ∧
      rowsOf visitDocuments visitsFrom = .ok [Entry.toRow ⟨"b", .bool true, .null⟩] ∧
      rowsOf visitDocuments (visitsUntil true) =
        .ok ([Entry.toRow ⟨"a", .bool true, .null⟩] ++
          [Entry.toRow ⟨"b", .bool true, .null⟩]) := by
  let o : QueryOptions := {
    startKey := some (.bool true), endKey := some (.bool true), endKeyDocId := some "b" }
  let b : Bound := ⟨.bool true, some "b"⟩
  have whole : AsksAll visitDocuments (visitsUntil true) visitIndex o :=
    ⟨rfl, .inr ⟨rfl, nofun⟩, ⟨⟨rfl, rfl⟩, .none, .some rfl, .some rfl, fun _ => rfl, fun _ => rfl,
      rfl, by decide⟩, rfl, rfl⟩
  have before : AsksAll visitDocuments (visitsUntil false) visitIndex (o.endingBefore b) :=
    ⟨rfl, .inr ⟨rfl, nofun⟩, ⟨⟨rfl, rfl⟩, .none, .some rfl, .some rfl, fun _ => rfl, fun _ => rfl,
      rfl, by decide⟩, rfl, rfl⟩
  have behind : AsksAll visitDocuments visitsFrom visitIndex (o.startingAt b) :=
    ⟨rfl, .inr ⟨rfl, nofun⟩, ⟨⟨rfl, rfl⟩, .none, .some rfl, .some rfl, fun _ => rfl, fun _ => rfl,
      rfl, by decide⟩, rfl, rfl⟩
  obtain ⟨front, back, answeredFront, answeredBack, inside, -⟩ :=
    rowsOf_divided whole before behind
  rw [before.rowsOf, selected_visits rfl rfl] at answeredFront
  rw [behind.rowsOf, selected_visits rfl rfl] at answeredBack
  cases answeredFront
  cases answeredBack
  refine ⟨?_, ?_, inside ?_ ?_⟩
  · rw [before.rowsOf, selected_visits rfl rfl]
    rfl
  · rw [behind.rowsOf, selected_visits rfl rfl]
    rfl
  · rw [selected_visits rfl rfl]
    decide +kernel
  · rw [selected_visits rfl rfl]
    decide +kernel

/-- The rows of a range whose end belongs to it are those of the same range scanned from its end
to its start, the other way round. -/
theorem rowsOf_mirrored (asks : AsksAll documents first index o)
    (back : AsksAll documents second index o.mirrored)
    (inclusive : o.inclusiveEnd ≠ some false) :
    ∃ rows, rowsOf documents first = .ok rows ∧ rowsOf documents second = .ok rows.reverse := by
  refine ⟨_, asks.rowsOf, ?_⟩
  rw [back.rowsOf, QueryOptions.mirrored_selected asks.spells.unlisted.2 inclusive,
    List.map_reverse]

/-- With its end, the range down to another key is the range up from there, reversed. -/
theorem rowsOf_mirrored_visits :
    rowsOf visitDocuments visitsUp =
        .ok [Entry.toRow ⟨"b", .null, .null⟩, Entry.toRow ⟨"a", .bool true, .null⟩,
          Entry.toRow ⟨"b", .bool true, .null⟩] ∧
      rowsOf visitDocuments (visitsDown true) =
        .ok [Entry.toRow ⟨"b", .bool true, .null⟩, Entry.toRow ⟨"a", .bool true, .null⟩,
          Entry.toRow ⟨"b", .null, .null⟩] := by
  let o : QueryOptions := {
    startKey := some .null, endKey := some (.bool true), endKeyDocId := some "b" }
  have upward : AsksAll visitDocuments visitsUp visitIndex o :=
    ⟨rfl, .inr ⟨rfl, nofun⟩, ⟨⟨rfl, rfl⟩, .none, .some rfl, .some rfl, fun _ => rfl, fun _ => rfl,
      rfl, by decide⟩, rfl, rfl⟩
  have downward : AsksAll visitDocuments (visitsDown true) visitIndex o.mirrored :=
    ⟨rfl, .inr ⟨rfl, nofun⟩, ⟨⟨rfl, rfl⟩, .none, .some rfl, .some rfl, fun _ => rfl, fun _ => rfl,
      rfl, by decide⟩, rfl, rfl⟩
  obtain ⟨rows, answered, reversed⟩ := rowsOf_mirrored upward downward nofun
  have shown := answered
  rw [upward.rowsOf, selected_visits rfl rfl] at shown
  cases shown
  exact ⟨answered, reversed⟩

end Store

end DocViews
