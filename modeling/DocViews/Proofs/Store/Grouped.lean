import DocViews.Proofs.Index.Groups
import DocViews.Proofs.Store.Ranges

/-!
The rows that the server has for a range, reduced group by group. What a range admits comes in the
order of its keys, so its groups divide it: there is one row for each group key, and no entry is
counted twice or left out.
-/

namespace DocViews

namespace EncodedQuery

variable {q : EncodedQuery} {o : QueryOptions} {index : Index} {reduction : Reduction}

/-- The same query for the entries as they are. -/
def unreduced (q : EncodedQuery) : EncodedQuery := q.insert QueryField.reduce (.bool false)

theorem get?_unreduced_of_ne {other : QueryField} (h : other ≠ .reduce) (q : EncodedQuery) :
    q.unreduced.get? other = q.get? other := by
  rw [unreduced, get?_insert, if_neg h.symm]

theorem unreduced_unreduced (q : EncodedQuery) (index : Index) : q.unreduced.Unreduced index := by
  left
  simp [bool?, unreduced, get?_insert]

theorem Spells.unreduced (spells : q.Spells o) : q.unreduced.Spells o := by
  obtain ⟨unlisted, key, startKey, endKey, startId, endId, inclusive, order⟩ := spells
  constructor <;> simpa [string?, strings?, bool?, get?_unreduced_of_ne]

/-- Whether rows are reduced group by group. -/
def Grouped (q : EncodedQuery) : Prop :=
  q.bool? QueryField.group = some true ∨ (q.natural? QueryField.groupLevel).isSome

theorem Grouped.groupingOf (grouped : q.Grouped) : Plan.groupingOf q ≠ .all := by
  unfold Plan.groupingOf
  rcases grouped with whole | level
  · rw [whole]
    exact Grouping.noConfusion
  · obtain ⟨n, hn⟩ := Option.isSome_iff_exists.mp level
    rw [hn]
    rcases q.bool? QueryField.group with _ | _ | _ <;> exact Grouping.noConfusion

/-- Whether rows for a query on an index are reduced. -/
structure Reduces (q : EncodedQuery) (index : Index) (reduction : Reduction) : Prop where
  held : index.reduction = some reduction
  wanted : q.bool? QueryField.reduce ≠ some false

theorem Reduces.reductionOf (reduces : q.Reduces index reduction) (viewName : String) :
    Plan.reductionOf q viewName index.reduction = .ok (some reduction) := by
  unfold Plan.reductionOf
  rw [reduces.held]
  rcases h : q.bool? QueryField.reduce with _ | _ | _
  · rfl
  · exact absurd h reduces.wanted
  · rfl

end EncodedQuery

namespace Store

variable {documents : Dictionary DesignDocument} {q : EncodedQuery} {index : Index}
  {o : QueryOptions} {reduction : Reduction}

theorem indexOf_unreduced (q : EncodedQuery) :
    indexOf documents q.unreduced = indexOf documents q := by
  simp [indexOf, namespaceOf, viewNameOf, EncodedQuery.string?, EncodedQuery.get?_unreduced_of_ne]

theorem windowOf_unreduced (q : EncodedQuery) :
    Plan.windowOf q.unreduced = Plan.windowOf q := by
  simp [Plan.windowOf, EncodedQuery.natural?, EncodedQuery.get?_unreduced_of_ne]

theorem rowsOf_selection {selection : Selection} (located : indexOf documents q = .ok index)
    (reduces : q.Reduces index reduction) (selects : Plan.selectionOf q = .ok selection) :
    let d := Plan.directionOf q
    rowsOf documents q = .ok ((Plan.windowOf q).apply
      (reduction.rows (Plan.groupingOf q) (selection.select d (index.scan d)))) :=
  rowsOf_of_selection located selects (reduces.reductionOf _)

/-- A build with overflow checks panics if a row overflows. -/
theorem reply?_selection {selection : Selection} (located : indexOf documents q = .ok index)
    (reduces : q.Reduces index reduction) (selects : Plan.selectionOf q = .ok selection) :
    reply? documents q = none ↔
      reduction.rowsOverflow (Plan.groupingOf q)
        (selection.select (Plan.directionOf q) (index.scan (Plan.directionOf q))) = true := by
  have planned : Plan.ofQuery q (viewNameOf q) index.reduction = .ok
      ⟨Plan.directionOf q, selection, some reduction, Plan.groupingOf q, Plan.windowOf q⟩ := by
    rw [Plan.ofQuery, selects, reduces.reductionOf]
    rfl
  have answered := map_answer_reply Answer.overflows located
  rw [planned] at answered
  rw [reply?_eq_none]
  cases replied : reply documents q with
  | error m =>
      rw [replied] at answered
      cases answered
  | ok r =>
      rw [replied] at answered
      have overflows : r.answer.overflows = _ := Except.ok.inj answered
      simp only [Except.ok.injEq, exists_eq_left', overflows]
      rfl

section Sample

/-- Keys that tie once they are cut off after one item. -/
def tripIndex : Index := ⟨[
  ⟨"a", .null, .null⟩,
  ⟨"b", .array [.null], .null⟩,
  ⟨"c", .array [.bool true], .null⟩,
  ⟨"d", .array [.bool true, .null], .null⟩,
  ⟨"e", .array [.bool true, .bool false], .null⟩], some .count⟩

def tripDocuments : Dictionary DesignDocument :=
  .ofPairs [("people", .ofPairs [("visits", tripIndex)])]

/-- From the greatest key down to the arrays. -/
def tripsByFirst : EncodedQuery :=
  visitQuery [(.groupLevel, .natural 1), (.endKey, .string "true"),
    (.order, .string "descending")]

theorem scan_trips : tripIndex.scan .ascending = tripIndex.entries :=
  List.mergeSort_of_pairwise (by decide +kernel)

end Sample

/-- The rows of a query that lists no keys and has its rows grouped, by the whole key or by a
part of it. There is one row for each group of what the range admits, the groups divide that, and
each row has what its entries, in the order of the scan, are reduced to. So counts add up to the
number of rows of the same query unreduced. A build with overflow checks has no rows at all where
one of the groups overflows. -/
theorem rowsOf_grouped (located : indexOf documents q = .ok index)
    (reduces : q.Reduces index reduction) (grouped : q.Grouped)
    (unlisted : q.strings? QueryField.keys = none)
    (reads : ∀ field ∈ [QueryField.key, .startKey, .endKey], ∀ text ∈ q.string? field,
      ∃ key, Json.readString text = .ok key)
    (skipsNothing : q.natural? QueryField.skip = none)
    (unlimited : q.natural? QueryField.limit = none) :
    (∃ o, q.Spells o) ∧ ∀ o, q.Spells o → ∃ groups : List Reduction.Group,
      rowsOf documents q = .ok (groups.map (·.row reduction)) ∧
      (reply? documents q = none ↔ ∃ group ∈ groups, reduction.overflows group.entries = true) ∧
      Reduction.Divides (Plan.groupingOf q) o.direction ((o.scan index).filter o.admits) groups ∧
      ∃ raw, rowsOf documents q.unreduced = .ok raw ∧
        (reduction = .count → ∃ counts : List Nat,
          groups.map (reduction.apply ·.entries) = counts.map .ofNat ∧
            counts.sum = raw.length) := by
  refine ⟨EncodedQuery.exists_spells unlisted reads, fun o spells => ?_⟩
  have selected := QueryOptions.selected_of_unlisted spells.unlisted.2 index
  have sorted : ((o.scan index).filter o.admits).Pairwise fun a b =>
      (o.direction.turn (collate a.key b.key)).isLE :=
    ((o.scan_sorted index).sublist List.filter_sublist).imp fun le =>
      Direction.turn_isLE_then le
  have divides := Reduction.divides_keyed sorted (Plan.groupingOf q)
  have located' : indexOf documents q.unreduced = .ok index := (indexOf_unreduced q).trans located
  have raw : rowsOf documents q.unreduced =
      .ok (((o.scan index).filter o.admits).map Entry.toRow) := by
    rw [rowsOf_spells located' (q.unreduced_unreduced index) spells.unreduced, windowOf_unreduced,
      apply_window skipsNothing unlimited, selected]
  refine ⟨_, ?_, ?_, divides, _, raw, ?_⟩
  · rw [rowsOf_selection located reduces spells.selectionOf,
      apply_window skipsNothing unlimited, spells.directionOf,
      ← Reduction.rows_eq_keyed grouped.groupingOf, ← selected, ← QueryOptions.plan_selected]
    rfl
  · rw [reply?_selection located reduces spells.selectionOf, spells.directionOf,
      ← Reduction.rowsOverflow_keyed grouped.groupingOf, ← selected, ← QueryOptions.plan_selected]
    rfl
  · rintro rfl
    refine ⟨(Reduction.keyed (Plan.groupingOf q) ((o.scan index).filter o.admits)).map
      (·.entries.length), ?_, ?_⟩
    · simp only [Reduction.apply, List.map_map, Function.comp_def]
    · rw [← List.length_flatMap, divides.whole, List.length_map]

/-- Of the arrays three begin with the same item. -/
theorem rowsOf_grouped_trips :
    ∃ groups : List Reduction.Group,
      rowsOf tripDocuments tripsByFirst = .ok (groups.map (·.row .count)) ∧
      groups.map (·.row .count) = [
        Reduction.row (.array [.bool true]) (.ofNat 3),
        Reduction.row (.array [.null]) (.ofNat 1)] ∧
      groups.flatMap (·.entries) = tripIndex.entries.tail.reverse := by
  let o : QueryOptions := { endKey := some (.bool true), order := some .descending }
  have located : indexOf tripDocuments tripsByFirst = .ok tripIndex := rfl
  have reduces : tripsByFirst.Reduces tripIndex .count := ⟨rfl, nofun⟩
  have grouped : tripsByFirst.Grouped := .inr rfl
  have spells : tripsByFirst.Spells o :=
    ⟨⟨rfl, rfl⟩, .none, .none, .some rfl, fun _ => rfl, fun _ => rfl, rfl, by decide⟩
  obtain ⟨-, rows⟩ := rowsOf_grouped located reduces grouped rfl spells.reads rfl rfl
  obtain ⟨groups, answered, -, divides, -⟩ := rows o spells
  have scanned : tripIndex.scan o.direction = tripIndex.entries.reverse :=
    congrArg List.reverse scan_trips
  refine ⟨groups, answered, ?_, ?_⟩
  · rw [rowsOf_selection located reduces spells.selectionOf, spells.directionOf, scanned]
      at answered
    exact (Except.ok.inj answered).symm
  · rw [divides.whole, ← QueryOptions.scan_direction, scanned]
    rfl

end Store

end DocViews
