import DocViews.Proofs.Store.Grouped

/-!
Skip and limit are a window on the rows that a query is answered with: the rows before and behind
it are left out, and nothing else about the answer changes, reduced or not. So the windows of one
size, one behind the other, are the pages of the answer.
-/

namespace DocViews

namespace EncodedQuery

/-- The same query without skip and limit. -/
def whole (q : EncodedQuery) : EncodedQuery where
  params := (q.params.erase QueryField.skip.name).erase QueryField.limit.name

/-- The same query for one page, counted from zero, of so many rows. -/
def page (q : EncodedQuery) (i : Nat) (n : UInt64) : EncodedQuery :=
  (q.insert QueryField.skip (.natural (.ofNat (i * n.toNat)))).insert QueryField.limit (.natural n)

theorem get?_whole (q : EncodedQuery) (field : QueryField) :
    q.whole.get? field =
      if field = .skip ∨ field = .limit then none else q.get? field := by
  unfold whole get?
  simp only [Dictionary.find?_erase]
  by_cases limit : field = .limit
  · simp [limit]
  · by_cases skip : field = .skip
    · simp [skip]
    · have behind : QueryField.limit.name ≠ field.name := fun h =>
        limit (QueryField.name_injective h.symm)
      have before : QueryField.skip.name ≠ field.name := fun h =>
        skip (QueryField.name_injective h.symm)
      rw [if_neg behind, if_neg before, if_neg (by simp [limit, skip])]

theorem get?_page_of_ne {field : QueryField} (skip : field ≠ .skip) (limit : field ≠ .limit)
    (q : EncodedQuery) (i : Nat) (n : UInt64) : (q.page i n).get? field = q.get? field := by
  rw [page, get?_insert, get?_insert, if_neg limit.symm, if_neg skip.symm]

/-- Whether two queries differ in skip and limit only. -/
def SameButWindow (q other : EncodedQuery) : Prop :=
  ∀ field : QueryField, field ≠ .skip → field ≠ .limit → q.get? field = other.get? field

theorem sameButWindow_whole (q : EncodedQuery) : q.SameButWindow q.whole := by
  intro field skip limit
  rw [get?_whole, if_neg (by simp [skip, limit])]

theorem sameButWindow_page (q : EncodedQuery) (i : Nat) (n : UInt64) :
    (q.page i n).SameButWindow q.whole := by
  intro field skip limit
  rw [get?_page_of_ne skip limit]
  exact q.sameButWindow_whole field skip limit

namespace SameButWindow

variable {q other : EncodedQuery} {field : QueryField}

theorem string? (same : q.SameButWindow other) (skip : field ≠ .skip) (limit : field ≠ .limit) :
    q.string? field = other.string? field := by
  rw [EncodedQuery.string?, EncodedQuery.string?, same field skip limit]

theorem bool? (same : q.SameButWindow other) (skip : field ≠ .skip) (limit : field ≠ .limit) :
    q.bool? field = other.bool? field := by
  rw [EncodedQuery.bool?, EncodedQuery.bool?, same field skip limit]

theorem natural? (same : q.SameButWindow other) (skip : field ≠ .skip) (limit : field ≠ .limit) :
    q.natural? field = other.natural? field := by
  rw [EncodedQuery.natural?, EncodedQuery.natural?, same field skip limit]

theorem strings? (same : q.SameButWindow other) (skip : field ≠ .skip) (limit : field ≠ .limit) :
    q.strings? field = other.strings? field := by
  rw [EncodedQuery.strings?, EncodedQuery.strings?, same field skip limit]

end SameButWindow

end EncodedQuery

/-- The rows of a list that a window leaves, by where it starts and stops. -/
theorem Window.apply_eq_extract {α : Type} (w : Window) (rows : List α) :
    w.apply rows = rows.extract w.skip
      (w.limit.elim rows.length fun limit => min (w.skip + limit) rows.length) := by
  obtain ⟨skip, limit⟩ := w
  rw [List.extract_eq_take_drop]
  cases limit with
  | none => simp [apply, List.take_of_length_le]
  | some limit =>
      simp only [apply, Option.elim]
      rw [List.take_eq_take_iff, List.length_drop]
      omega

namespace Store

variable {documents : Dictionary DesignDocument} {q other : EncodedQuery}

/-- The same reply with other rows. -/
def Reply.withRows (r : Reply) (rows : List Json.Value) : Reply :=
  { r with answer := { r.answer with rows } }

theorem Reply.trailer_withRows (r : Reply) (rows : List Json.Value) :
    (r.withRows rows).trailer = r.trailer := rfl

theorem windowOf_whole (q : EncodedQuery) : Plan.windowOf q.whole = ⟨0, none⟩ := by
  simp [Plan.windowOf, EncodedQuery.natural?, EncodedQuery.get?_whole]

theorem windowOf_page {i : Nat} {n : UInt64} (fits : i * n.toNat < UInt64.size) :
    Plan.windowOf (q.page i n) = ⟨i * n.toNat, some n.toNat⟩ := by
  have start : (UInt64.ofNat (i * n.toNat)).toNat = i * n.toNat := UInt64.toNat_ofNat_of_lt' fits
  have skip : (q.page i n).natural? QueryField.skip = some (.ofNat (i * n.toNat)) := by
    simp [EncodedQuery.natural?, EncodedQuery.page, EncodedQuery.get?_insert]
  have limit : (q.page i n).natural? QueryField.limit = some n := by
    simp [EncodedQuery.natural?, EncodedQuery.page, EncodedQuery.get?_insert]
  rw [Plan.windowOf, skip, limit, Option.getD_some, start]
  rfl

/-- Of two queries that differ in their windows only the plans do. -/
theorem ofQuery_of_sameButWindow (same : q.SameButWindow other) (viewName : String)
    (reduction : Option Reduction) :
    Plan.ofQuery q viewName reduction = (Plan.ofQuery other viewName reduction).map
      ({ · with window := Plan.windowOf q }) := by
  have selection : Plan.selectionOf q = Plan.selectionOf other := by
    simp [Plan.selectionOf, Plan.key?, same.strings?, same.string?, same.bool?]
  have reduced : Plan.reductionOf q viewName reduction =
      Plan.reductionOf other viewName reduction := by
    simp [Plan.reductionOf, same.bool?]
  have grouping : Plan.groupingOf q = Plan.groupingOf other := by
    simp [Plan.groupingOf, same.bool?, same.natural?]
  have direction : Plan.directionOf q = Plan.directionOf other := by
    rw [Plan.directionOf, Plan.directionOf, same.string? (by decide) (by decide)]
  unfold Plan.ofQuery
  rw [selection, reduced, grouping, direction]
  cases Plan.selectionOf other with
  | error m => rfl
  | ok selection => cases Plan.reductionOf other viewName reduction <;> rfl

theorem window_of_ofQuery {viewName : String} {reduction : Option Reduction} {plan : Plan}
    (planned : Plan.ofQuery q viewName reduction = .ok plan) :
    plan.window = Plan.windowOf q := by
  unfold Plan.ofQuery at planned
  cases hselection : Plan.selectionOf q with
  | error m =>
      rw [hselection] at planned
      cases planned
  | ok selection =>
      cases hreduction : Plan.reductionOf q viewName reduction with
      | error m =>
          rw [hselection, hreduction] at planned
          cases planned
      | ok reduction =>
          rw [hselection, hreduction] at planned
          cases planned
          rfl

/-- Of two queries that differ in their windows only the replies do, and if one has no window the
rows of the other are cut out of its rows. -/
theorem reply_of_sameButWindow (same : q.SameButWindow other)
    (unwindowed : Plan.windowOf other = ⟨0, none⟩) :
    reply documents q = (reply documents other).map fun r =>
      r.withRows ((Plan.windowOf q).apply r.answer.rows) := by
  have ns : namespaceOf q = namespaceOf other := by
    simp [namespaceOf, same.string?]
  unfold reply
  simp only [ns, same.string?, same.bool?, ne_eq, reduceCtorEq, not_false_eq_true]
  cases namespaceOf other with
  | error m => rfl
  | ok ns =>
  simp only [bind, Except.bind]
  cases locate documents _ ((other.string? QueryField.viewName).getD "") with
  | error m => rfl
  | ok index =>
  simp only [ofQuery_of_sameButWindow same]
  cases hplan : Plan.ofQuery other ((other.string? QueryField.viewName).getD "")
    index.reduction with
  | error m => rfl
  | ok plan =>
  have window : plan.window = ⟨0, none⟩ := (window_of_ofQuery hplan).trans unwindowed
  have everything : (plan.answer index).rows = plan.rows index := by
    rw [Plan.answer, window]
    rfl
  simp only [Except.map, pure, Except.pure, Reply.withRows, everything]
  rfl

theorem reply_windowed (documents : Dictionary DesignDocument) (q : EncodedQuery) :
    reply documents q = (reply documents q.whole).map fun r =>
      r.withRows ((Plan.windowOf q).apply r.answer.rows) :=
  reply_of_sameButWindow q.sameButWindow_whole (windowOf_whole q)

/-- What the first pages have, one after another. -/
def firstPages (documents : Dictionary DesignDocument) (q : EncodedQuery) (n : UInt64) :
    Nat → Except Marker (List Json.Value)
  | 0 => .ok []
  | m + 1 => do
      let before ← firstPages documents q n m
      let page ← rowsOf documents (q.page m n)
      pure (before ++ page)

section Pages

variable {r : Reply} {n : UInt64}

theorem rowsOf_page (answered : reply documents q.whole = .ok r) {i : Nat}
    (fits : i * n.toNat < UInt64.size) :
    rowsOf documents (q.page i n) =
      .ok ((r.answer.rows.drop (i * n.toNat)).take n.toNat) := by
  rw [rowsOf, reply_of_sameButWindow (q.sameButWindow_page i n) (windowOf_whole q), answered,
    windowOf_page fits]
  rfl

theorem firstPages_eq (answered : reply documents q.whole = .ok r) {m : Nat}
    (fit : ∀ i < m, i * n.toNat < UInt64.size) :
    firstPages documents q n m = .ok (r.answer.rows.take (m * n.toNat)) := by
  induction m with
  | zero => simp [firstPages]
  | succ m ih =>
      have before := ih fun i h => fit i (Nat.lt_succ_of_lt h)
      have page := rowsOf_page answered (fit m (Nat.lt_succ_self m))
      rw [firstPages, before, page, Nat.succ_mul, List.take_add]
      rfl

/-- After as many pages as are full, and one more, there is nothing left. -/
theorem firstPages_all (answered : reply documents q.whole = .ok r) (positive : 0 < n.toNat)
    (countable : r.answer.rows.length < UInt64.size) :
    firstPages documents q n (r.answer.rows.length / n.toNat + 1) = .ok r.answer.rows := by
  have begun : ∀ i < r.answer.rows.length / n.toNat + 1, i * n.toNat < UInt64.size := by
    intro i h
    calc i * n.toNat
        ≤ r.answer.rows.length / n.toNat * n.toNat := Nat.mul_le_mul_right _ (Nat.le_of_lt_succ h)
      _ ≤ r.answer.rows.length := Nat.div_mul_le_self _ _
      _ < UInt64.size := countable
  have enough : r.answer.rows.length ≤ (r.answer.rows.length / n.toNat + 1) * n.toNat :=
    Nat.le_of_lt (Nat.lt_mul_of_div_lt (Nat.lt_succ_self _) positive)
  rw [firstPages_eq answered begun, List.take_of_length_le enough]

end Pages

section Sample

/-- The groups of `tripsByFirst` behind the first. -/
def laterTrips : EncodedQuery :=
  (tripsByFirst.insert QueryField.skip (.natural 1)).insert QueryField.limit (.natural 5)

theorem reply_trips :
    ∃ r, reply tripDocuments laterTrips.whole = .ok r ∧ r.answer.rows = [
      Reduction.row (.array [.bool true]) (.ofNat 3),
      Reduction.row (.array [.null]) (.ofNat 1)] := by
  have located : indexOf tripDocuments laterTrips.whole = .ok tripIndex := rfl
  have reduces : laterTrips.whole.Reduces tripIndex .count := ⟨rfl, nofun⟩
  have selects : Plan.selectionOf laterTrips.whole =
      .ok (.range none none (some ⟨.bool true, none⟩) true) := rfl
  have scanned : tripIndex.scan .descending = tripIndex.entries.reverse :=
    congrArg List.reverse scan_trips
  have answered := rowsOf_selection located reduces selects
  simp only [show Plan.directionOf laterTrips.whole = .descending by decide, scanned] at answered
  exact exists_reply answered

end Sample

/-- Skip and limit are a window on the rows, whatever else is asked. What is refused without them
is refused with them, in the same words. Otherwise the rows are those from the skipped ones on,
up to the limit, and nothing else of the reply is changed, so the trailer with its counts is not.
The pages of any size have all rows between them, in their order, and behind these there are only
empty pages. What is skipped is a number of 64 bits, and so is, in memory, the number of rows. -/
theorem submit_windowed (store : Store) (q : EncodedQuery) (timeout : Duration) :
    (∀ m, reply store.documents q.whole = .error m →
      reply store.documents q = .error m ∧
        (store.submit q timeout).outcome = (store.submit q.whole timeout).outcome) ∧
    ∀ r, reply store.documents q.whole = .ok r →
      let all := r.answer.rows
      let skip := ((q.natural? QueryField.skip).getD 0).toNat
      let stop := (q.natural? QueryField.limit).elim all.length fun limit =>
        min (skip + limit.toNat) all.length
      let windowed := r.withRows (all.extract skip stop)
      reply store.documents q = .ok windowed ∧ windowed.trailer = r.trailer ∧
        (store.failNextSubmit = none →
          (store.submit q timeout).outcome = .ok (windowed.source store.failStreamAfter)) ∧
        (store.failNextSubmit = none → store.failStreamAfter = none →
          (store.submit q timeout).outcome =
            .ok (.whole ((all.extract skip stop).map Json.Value.bytes) r.trailer.bytes)) ∧
        ∀ n : UInt64, 0 < n.toNat →
          (∀ i, i * n.toNat < UInt64.size → all.length ≤ i * n.toNat →
            rowsOf store.documents (q.page i n) = .ok []) ∧
          (∀ m, (∀ i < m, i * n.toNat < UInt64.size) →
            firstPages store.documents q n m = .ok (all.take (m * n.toNat))) ∧
          (all.length < UInt64.size →
            firstPages store.documents q n (all.length / n.toNat + 1) = .ok all) := by
  constructor
  · intro m refused
    have refusedToo : reply store.documents q = .error m := by
      rw [reply_windowed, refused]
      rfl
    refine ⟨refusedToo, ?_⟩
    unfold submit
    simp only [refused, refusedToo]
    cases store.failNextSubmit <;> rfl
  · intro r answered all skip stop windowed
    have cut : (Plan.windowOf q).apply all = all.extract skip stop := by
      rw [Window.apply_eq_extract, Plan.windowOf, Option.elim_map]
      rfl
    have replied : reply store.documents q = .ok windowed := by
      rw [reply_windowed, answered]
      exact congrArg (fun rows => Except.ok (r.withRows rows)) cut
    refine ⟨replied, r.trailer_withRows _, ?_, ?_, ?_⟩
    · intro accepts
      unfold submit
      simp only [accepts, replied]
    · intro accepts lasts
      exact submit_reply accepts lasts replied timeout
    · intro n positive
      refine ⟨?_, ?_, ?_⟩
      · intro i fits behind
        rw [rowsOf_page answered fits, List.drop_of_length_le behind, List.take_nil]
      · intro m fit
        exact firstPages_eq answered fit
      · intro countable
        exact firstPages_all answered positive countable

/-- The second of two groups is left, and with one group to a page there are two pages and an
empty one. -/
theorem submit_windowed_trips :
    let store : Store := { documents := tripDocuments }
    let first := Reduction.row (.array [.bool true]) (.ofNat 3)
    let second := Reduction.row (.array [.null]) (.ofNat 1)
    ∃ r, reply tripDocuments laterTrips.whole = .ok r ∧
      (store.submit laterTrips ⟨0⟩).outcome = .ok (.whole [second.bytes] r.trailer.bytes) ∧
      firstPages tripDocuments laterTrips 1 3 = .ok [first, second] ∧
      rowsOf tripDocuments (laterTrips.page 2 1) = .ok [] := by
  intro store first second
  obtain ⟨r, answered, rows⟩ := reply_trips
  obtain ⟨-, windowed⟩ := submit_windowed store laterTrips ⟨0⟩
  obtain ⟨-, -, -, streamed, pages⟩ := windowed r answered
  obtain ⟨past, -, complete⟩ := pages 1 (by decide)
  rw [rows] at streamed past complete
  exact ⟨r, answered, streamed rfl rfl, complete (by decide), past 2 (by decide) (by decide)⟩

end Store

end DocViews
