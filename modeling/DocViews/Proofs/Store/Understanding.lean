import DocViews.Proofs.Json.Values
import DocViews.Proofs.Query.Encoding
import DocViews.Proofs.Query.Evaluation
import Mathlib.Data.List.Forall2

/-!
The store understands queries as they are meant: what it makes of the encoded form of a
query is what the options of the query mean, entry by entry and row by row.
-/

namespace DocViews

/-- What the options ask for, as a store puts it. -/
def QueryOptions.direction (o : QueryOptions) : Direction :=
  if o.descending then .descending else .ascending

def QueryOptions.selection (o : QueryOptions) : Selection :=
  match o.keys with
  | some keys => .keys keys
  | none => .range o.key (o.startKey.map (⟨·, o.startKeyDocId⟩)) (o.endKey.map (⟨·, o.endKeyDocId⟩))
      (o.inclusiveEnd.getD true)

def QueryOptions.grouping (o : QueryOptions) : Grouping :=
  match o.group, o.groupLevel with
  | some true, _ => .exact
  | _, some level => .level level.toNat
  | _, none => .all

def QueryOptions.window (o : QueryOptions) : Window where
  skip := (o.skip.getD 0).toNat
  limit := o.limit.map Int.toNat

def QueryOptions.plan (o : QueryOptions) (index : Index) : Plan where
  direction := o.direction
  selection := o.selection
  reduction := o.reduction index
  grouping := o.grouping
  window := o.window

namespace QueryOptions

variable {o : QueryOptions}

theorem compare_beq_lt (s t : String) : (compare s t == .lt) = decide (s < t) := by
  have hlt : compare s t = .lt ↔ s < t := compareOfLessAndEq_eq_lt
  rw [Bool.eq_iff_iff, beq_iff_eq, decide_eq_true_eq]
  exact hlt

theorem compare_beq_gt (s t : String) : (compare s t == .gt) = decide (t < s) := by
  have hgt : compare s t = .gt ↔ t < s :=
    compareOfLessAndEq_eq_gt String.le_antisymm String.le_total String.not_le s t
  rw [Bool.eq_iff_iff, beq_iff_eq, decide_eq_true_eq]
  exact hgt

/-- Where an entry lies relative to a bound, in ascending order. -/
def ascendingPosition (key : Json.Value) (docId : Option String) (e : Entry) : Ordering :=
  (Bound.mk key docId).position .ascending e

theorem ascendingPosition_lt (key : Json.Value) (docId : Option String) (e : Entry) :
    (ascendingPosition key docId e == .lt) = below key docId e := by
  unfold ascendingPosition Bound.position below
  cases docId with
  | none => cases collate e.key key <;> rfl
  | some id =>
      have hid := compare_beq_lt e.id id
      cases collate e.key key with
      | eq => exact hid
      | lt => rfl
      | gt => rfl

theorem ascendingPosition_gt (key : Json.Value) (docId : Option String) (e : Entry) :
    (ascendingPosition key docId e == .gt) = above key docId e := by
  unfold ascendingPosition Bound.position above
  cases docId with
  | none => cases collate e.key key <;> rfl
  | some id =>
      have hid := compare_beq_gt e.id id
      cases collate e.key key with
      | eq => exact hid
      | lt => rfl
      | gt => rfl

/-- The direction turns positions round. -/
theorem position_direction (key : Json.Value) (docId : Option String) (e : Entry) :
    (Bound.mk key docId).position o.direction e =
      if o.descending then (ascendingPosition key docId e).swap
      else ascendingPosition key docId e := by
  unfold direction
  cases o.descending <;> rfl

theorem position_lt (key : Json.Value) (docId : Option String) (e : Entry) :
    ((Bound.mk key docId).position o.direction e == .lt) = o.before key docId e := by
  rw [position_direction]
  unfold before
  rw [← ascendingPosition_lt, ← ascendingPosition_gt]
  cases o.descending <;> cases ascendingPosition key docId e <;> rfl

theorem position_gt (key : Json.Value) (docId : Option String) (e : Entry) :
    ((Bound.mk key docId).position o.direction e == .gt) = o.past key docId e := by
  rw [position_direction]
  unfold past
  rw [← ascendingPosition_lt, ← ascendingPosition_gt]
  cases o.descending <;> cases ascendingPosition key docId e <;> rfl

theorem scan_direction (index : Index) : index.scan o.direction = o.scan index := by
  unfold direction scan
  cases o.descending <;> rfl

theorem range_admits (e : Entry) :
    (Selection.admitsKey o.key e
      && Selection.admitsStart (o.startKey.map (⟨·, o.startKeyDocId⟩)) o.direction e
      && Selection.admitsStop (o.endKey.map (⟨·, o.endKeyDocId⟩)) (o.inclusiveEnd.getD true)
        o.direction e) = o.admits e := by
  have hkey : Selection.admitsKey o.key e = o.key.all fun key => collate e.key key == .eq := by
    cases o.key <;> rfl
  have hstart : Selection.admitsStart (o.startKey.map (⟨·, o.startKeyDocId⟩)) o.direction e =
      o.startKey.all fun key => !o.before key o.startKeyDocId e := by
    cases o.startKey with
    | none => rfl
    | some key =>
        have hlt := position_lt (o := o) key o.startKeyDocId e
        simp only [Option.map_some, Selection.admitsStart, Option.all_some, bne, hlt]
  have hstop : Selection.admitsStop (o.endKey.map (⟨·, o.endKeyDocId⟩))
      (o.inclusiveEnd.getD true) o.direction e =
      o.endKey.all fun key =>
        if o.inclusiveEnd.getD true then !o.past key o.endKeyDocId e
        else o.before key o.endKeyDocId e := by
    cases o.endKey with
    | none => rfl
    | some key =>
        have hlt := position_lt (o := o) key o.endKeyDocId e
        have hgt := position_gt (o := o) key o.endKeyDocId e
        simp only [Option.map_some, Selection.admitsStop, Option.all_some, bne, hlt, hgt]
  rw [hkey, hstart, hstop]
  rfl

/-- The store selects the entries that are meant. -/
theorem plan_selected (index : Index) : (o.plan index).selected index = o.selected index := by
  unfold Plan.selected plan selected selection
  simp only [scan_direction]
  cases o.keys with
  | some keys => rfl
  | none =>
      simp only [Selection.select]
      exact List.filter_congr fun e _ => range_admits e

theorem grouping_cases :
    (o.isGrouped = true ∧ o.grouping ≠ .all ∧ ∀ key, o.grouping.key key = o.groupKey key) ∨
      (o.isGrouped = false ∧ o.grouping = .all) := by
  unfold isGrouped grouping groupKey
  rcases o.group with _ | _ | _ <;> rcases o.groupLevel with _ | level
  case none.none => exact .inr ⟨rfl, rfl⟩
  case some.false.none => exact .inr ⟨rfl, rfl⟩
  case some.true.none => exact .inl ⟨rfl, nofun, fun _ => rfl⟩
  case some.true.some => exact .inl ⟨rfl, nofun, fun _ => rfl⟩
  case none.some => exact .inl ⟨rfl, nofun, fun key => by cases key <;> rfl⟩
  case some.false.some => exact .inl ⟨rfl, nofun, fun key => by cases key <;> rfl⟩

/-- A reduced row as an object. -/
theorem row_eq_toValue (key value : Json.Value) :
    Reduction.row key value = Row.toValue ⟨none, key, value⟩ :=
  Json.ofMembers_of_keys ["key", "value"] rfl (by decide)

theorem toRow_eq_toValue (e : Entry) : e.toRow = Row.toValue ⟨some e.id, e.key, e.value⟩ :=
  Json.ofMembers_of_keys ["id", "key", "value"] rfl (by decide)

theorem groups_grouping (hkey : ∀ key, o.grouping.key key = o.groupKey key)
    (entries : List Entry) : Reduction.groups o.grouping entries = o.groups entries := by
  unfold Reduction.groups groups
  simp only [hkey]
  rfl

/-- The store reduces them as is meant. -/
theorem reduction_rows (reduction : Reduction) (entries : List Entry) :
    reduction.rows o.grouping entries = (o.reduced reduction entries).map Row.toValue := by
  unfold reduced
  -- The store asks for the kind of grouping first, the meaning whether there is any.
  rcases grouping_cases (o := o) with ⟨hgrouped, hsome, hkey⟩ | ⟨hgrouped, hall⟩
  · have hrow : ∀ group, reduction.groupRow o.grouping group =
        (group.getLast?.map fun last =>
          (⟨none, o.groupKey last.key, reduction.apply group⟩ : Row)).map Row.toValue := by
      intro group
      unfold Reduction.groupRow
      simp only [Option.map_map, hkey, row_eq_toValue]
      rfl
    rw [if_pos hgrouped, List.map_filterMap]
    unfold Reduction.rows
    split
    · next hall => exact absurd hall hsome
    · rw [groups_grouping hkey]
      exact congrArg (List.filterMap · (o.groups entries)) (funext hrow)
  · rw [hall, if_neg (by simp [hgrouped])]
    simp only [Reduction.rows]
    split
    · rfl
    · exact congrArg (fun row => [row]) (row_eq_toValue _ _)

/-- The store overflows where the sums do that are meant. -/
theorem plan_overflows (index : Index) : (o.plan index).overflows index = o.overflows index := by
  unfold Plan.overflows overflows
  rw [plan_selected]
  simp only [plan]
  cases o.reduction index with
  | none => rfl
  | some reduction =>
      simp only [Option.any_some]
      rcases grouping_cases (o := o) with ⟨hgrouped, hsome, hkey⟩ | ⟨hgrouped, hall⟩
      · rw [if_pos hgrouped, ← groups_grouping hkey]
        unfold Reduction.rowsOverflow
        split
        · next hall => exact absurd hall hsome
        · rfl
      · rw [if_neg (by simp [hgrouped]), hall]
        rfl

/-- The rows that the store has before the window are those that are meant. -/
theorem plan_rows (index : Index) :
    (o.plan index).rows index = (o.allRows index).map Row.toValue := by
  have hselected := plan_selected (o := o) index
  unfold Plan.rows allRows
  rw [hselected]
  simp only [plan]
  cases o.reduction index with
  | some reduction => exact reduction_rows reduction (o.selected index)
  | none =>
      rw [List.map_map]
      exact congrArg (List.map · (o.selected index)) (funext toRow_eq_toValue)

/-- The store answers with the rows that are meant. -/
theorem plan_answer (index : Index) :
    (o.plan index).answer index = {
      rows := (o.rows index).map Row.toValue
      totalRows := if (o.reduction index).isSome then none else some index.entries.length
      matched := (o.selected index).length
      overflows := o.overflows index } := by
  unfold Plan.answer
  rw [plan_rows, plan_selected, plan_overflows]
  have hwindow : (o.plan index).window.apply ((o.allRows index).map Row.toValue) =
      (o.rows index).map Row.toValue := by
    unfold rows Window.apply plan window
    cases o.limit with
    | none => simp only [Option.map_none, List.map_drop]
    | some limit => simp only [Option.map_some, List.map_drop, List.map_take]
  have htotal : (if (o.plan index).reduction.isNone then some index.entries.length else none) =
      if (o.reduction index).isSome then none else some index.entries.length := by
    have hnone : ∀ reduction : Option Reduction,
        (if reduction.isNone then some index.entries.length else none) =
          if reduction.isSome then none else some index.entries.length := by
      intro reduction
      cases reduction <;> rfl
    exact hnone (o.reduction index)
  rw [hwindow, htotal]

end QueryOptions

namespace Plan

variable {text : String} {texts : List String} {key : Json.Value} {keys : List Json.Value}

theorem listedKey_eq_ok : listedKey text = .ok key ↔ Json.readString text = .ok key := by
  unfold listedKey
  cases Json.readString text with
  | ok read => simp only [Except.ok.injEq]
  | error e => exact ⟨nofun, nofun⟩

/-- A list of texts reads text by text. -/
theorem mapM_listedKey_iff :
    texts.mapM listedKey = .ok keys ↔
      List.Forall₂ (Json.readString · = .ok ·) texts keys := by
  induction texts generalizing keys with
  | nil =>
      constructor
      · intro h
        cases h
        exact .nil
      · intro h
        cases h
        rfl
  | cons text texts ih =>
      rw [List.mapM_cons, List.forall₂_cons_left_iff]
      constructor
      · intro h
        cases first : listedKey text with
        | error m =>
            rw [first] at h
            cases h
        | ok key =>
            cases rest : texts.mapM listedKey with
            | error m =>
                rw [first, rest] at h
                cases h
            | ok others =>
                rw [first, rest] at h
                cases h
                exact ⟨key, others, listedKey_eq_ok.mp first, ih.mp rest, rfl⟩
      · rintro ⟨key, others, first, rest, rfl⟩
        rw [listedKey_eq_ok.mpr first, ih.mpr rest]
        rfl

end Plan

namespace Query.Encodes

variable {q : EncodedQuery} {designDocument viewName : String} {o : QueryOptions}

theorem key?_ok {field : QueryField} {key : Option Json.Value}
    (h : q.string? field = key.map (·.text))
    (readable : ∀ k ∈ key, Json.readString k.text = .ok k) : Plan.key? q field = .ok key := by
  unfold Plan.key?
  rw [h]
  cases key with
  | none => rfl
  | some k => simp only [Option.map_some, readable k rfl]

theorem listedKeys_ok {keys : List Json.Value}
    (readable : ∀ k ∈ keys, Json.readString k.text = .ok k) :
    (keys.map (·.text)).mapM Plan.listedKey = .ok keys :=
  Plan.mapM_listedKey_iff.mpr (List.forall₂_map_left_iff.mpr (List.forall₂_same.mpr readable))

theorem selectionOf_ok (enc : Query.Encodes q designDocument viewName o)
    (readable : o.KeysReadable) : Plan.selectionOf q = .ok o.selection := by
  have hkey : ∀ k ∈ o.key, Json.readString k.text = .ok k := fun k hk =>
    readable k (by simp [QueryOptions.givenKeys, Option.mem_def.mp hk])
  have hstart : ∀ k ∈ o.startKey, Json.readString k.text = .ok k := fun k hk =>
    readable k (by simp [QueryOptions.givenKeys, Option.mem_def.mp hk])
  have hstop : ∀ k ∈ o.endKey, Json.readString k.text = .ok k := fun k hk =>
    readable k (by simp [QueryOptions.givenKeys, Option.mem_def.mp hk])
  unfold Plan.selectionOf QueryOptions.selection
  rw [enc.keys]
  cases hkeys : o.keys with
  | some keys =>
      have hlisted : ∀ k ∈ keys, Json.readString k.text = .ok k := fun k hk =>
        readable k (by simp [QueryOptions.givenKeys, hkeys, hk])
      simp only [Option.map_some, listedKeys_ok hlisted]
      rfl
  | none =>
      simp only [Option.map_none, key?_ok enc.key hkey, key?_ok enc.startKey hstart,
        key?_ok enc.endKey hstop, enc.startKeyDocId, enc.endKeyDocId, enc.inclusiveEnd, bind,
        Except.bind]
      rfl

theorem groupingOf_eq (enc : Query.Encodes q designDocument viewName o) :
    Plan.groupingOf q = o.grouping := by
  have hlevel := enc.groupLevel
  unfold Plan.groupingOf QueryOptions.grouping
  rw [enc.group]
  cases hsent : q.natural? QueryField.groupLevel with
  | none =>
      rw [hsent] at hlevel
      cases hgiven : o.groupLevel with
      | none => rcases o.group with _ | _ | _ <;> rfl
      | some level => simp [hgiven] at hlevel
  | some sent =>
      rw [hsent] at hlevel
      cases hgiven : o.groupLevel with
      | none => simp [hgiven] at hlevel
      | some level =>
          simp only [hgiven, Option.map_some, Option.some.injEq] at hlevel
          rcases o.group with _ | _ | _
          · exact congrArg Grouping.level hlevel
          · exact congrArg Grouping.level hlevel
          · rfl

theorem windowOf_eq (enc : Query.Encodes q designDocument viewName o) :
    Plan.windowOf q = o.window := by
  have hskip : ((q.natural? QueryField.skip).getD 0).toNat = (o.skip.getD 0).toNat := by
    have hsent := enc.skip
    cases hs : q.natural? QueryField.skip <;> cases ho : o.skip <;> simp [hs, ho] at hsent ⊢
    exact hsent
  unfold Plan.windowOf QueryOptions.window
  rw [hskip, enc.limit]

theorem directionOf_eq (enc : Query.Encodes q designDocument viewName o) :
    Plan.directionOf q = o.direction := by
  unfold Plan.directionOf QueryOptions.direction QueryOptions.descending
  rw [enc.order]
  rcases o.order with _ | _ | _ <;> rfl

/-- The store refuses to reduce a view that has no reduction, and else reduces as is meant. -/
theorem reductionOf_eq (enc : Query.Encodes q designDocument viewName o) (index : Index) :
    Plan.reductionOf q viewName index.reduction =
      if o.reduce = some true ∧ index.reduction = none then
        Plan.refuse ("view " ++ viewName ++ " has no reduce function")
      else .ok (o.reduction index) := by
  unfold Plan.reductionOf QueryOptions.reduction
  rw [enc.reduce]
  rcases o.reduce with _ | _ | _ <;> cases index.reduction <;> rfl

/-- Whatever keys the store reads, the rest of the plan that it makes is what is meant. -/
theorem ofQuery_eq_of_selection (enc : Query.Encodes q designDocument viewName o)
    {selection : Selection} (selects : Plan.selectionOf q = .ok selection) (index : Index) :
    Plan.ofQuery q viewName index.reduction =
      if o.reduce = some true ∧ index.reduction = none then
        Plan.refuse ("view " ++ viewName ++ " has no reduce function")
      else .ok { o.plan index with selection } := by
  unfold Plan.ofQuery
  rw [selects, enc.reductionOf_eq index, enc.directionOf_eq, enc.groupingOf_eq, enc.windowOf_eq]
  split
  · rfl
  · rfl

/-- The plan that the store makes is the one that is meant. -/
theorem ofQuery_eq (enc : Query.Encodes q designDocument viewName o) (readable : o.KeysReadable)
    (index : Index) :
    Plan.ofQuery q viewName index.reduction =
      if o.reduce = some true ∧ index.reduction = none then
        Plan.refuse ("view " ++ viewName ++ " has no reduce function")
      else .ok (o.plan index) :=
  enc.ofQuery_eq_of_selection (enc.selectionOf_ok readable) index

theorem namespaceOf_ok (enc : Query.Encodes q designDocument viewName o) :
    Store.namespaceOf q = .ok (o.namespace.getD .production) := by
  unfold Store.namespaceOf
  rw [enc.namespace]
  rcases o.namespace with _ | _ | _ <;> rfl

end Query.Encodes

end DocViews
