import DocViews.Proofs.Bucket
import DocViews.Proofs.Index.Scan

/-!
Reading an index page by page. Each page is asked for from the last row of the page before it
on, that row left out. If no two entries of the index tie on key and document, the pages one
after another are the rows of the query that they divide.
-/

namespace DocViews

namespace EncodedQuery

/-- The query for the first rows only. -/
def limited (q : EncodedQuery) (n : UInt64) : EncodedQuery :=
  q.insert QueryField.limit (.natural n)

/-- The query for what comes behind a row with this document and with the key of the text. -/
def behind (q : EncodedQuery) (text id : String) : EncodedQuery :=
  ((q.insert QueryField.startKey (.string text)).insert
    QueryField.startKeyDocId (.string id)).insert QueryField.skip (.natural 1)

theorem get?_insert (q : EncodedQuery) (field other : QueryField) (param : Param) :
    (q.insert field param).get? other = if field = other then some param else q.get? other := by
  unfold insert get?
  rw [Dictionary.find?_insert]
  by_cases same : field = other
  · rw [if_pos (congrArg QueryField.name same), if_pos same]
  · rw [if_neg fun h => same (QueryField.name_injective h), if_neg same]

theorem get?_limited_of_ne {other : QueryField} (h : other ≠ .limit) (q : EncodedQuery)
    (n : UInt64) : (q.limited n).get? other = q.get? other := by
  rw [limited, get?_insert, if_neg h.symm]

theorem get?_behind_of_ne {other : QueryField}
    (h : other ∉ [QueryField.startKey, .startKeyDocId, .skip]) (q : EncodedQuery)
    (text id : String) : (q.behind text id).get? other = q.get? other := by
  simp only [List.mem_cons, List.not_mem_nil, or_false, not_or] at h
  obtain ⟨hkey, hid, hskip⟩ := h
  rw [behind, get?_insert, get?_insert, get?_insert, if_neg (Ne.symm hskip), if_neg (Ne.symm hid),
    if_neg (Ne.symm hkey)]

end EncodedQuery

namespace Store

variable {documents : Dictionary DesignDocument} {q asked : EncodedQuery} {index : Index}
  {key : Option Json.Value} {start stop : Option Bound} {inclusive : Bool}
  {all rows page : List Json.Value} {pages : List (List Json.Value)} {n : UInt64}

def viewNameOf (q : EncodedQuery) : String := (q.string? QueryField.viewName).getD ""

/-- The index that a query is about. -/
def indexOf (documents : Dictionary DesignDocument) (q : EncodedQuery) : Except Marker Index := do
  let ns ← namespaceOf q
  locate documents (ns.qualify ((q.string? QueryField.documentName).getD "")) (viewNameOf q)

/-- The rows that a query is answered with. -/
def rowsOf (documents : Dictionary DesignDocument) (q : EncodedQuery) :
    Except Marker (List Json.Value) :=
  (reply documents q).map (·.answer.rows)

theorem exists_reply (answered : rowsOf documents q = .ok rows) :
    ∃ r, reply documents q = .ok r ∧ r.answer.rows = rows := by
  unfold rowsOf at answered
  cases replied : reply documents q with
  | error m =>
      rw [replied] at answered
      cases answered
  | ok r =>
      rw [replied] at answered
      exact ⟨r, rfl, Except.ok.inj answered⟩

/-- A query is answered as the plan for it is, on the index that it is about. -/
theorem map_answer_reply {α : Type} (f : Answer → α) (located : indexOf documents q = .ok index) :
    (reply documents q).map (fun r => f r.answer) =
      (Plan.ofQuery q (viewNameOf q) index.reduction).map fun plan => f (plan.answer index) := by
  unfold indexOf at located
  unfold reply
  cases hns : namespaceOf q with
  | error m => rw [hns] at located; cases located
  | ok ns =>
      rw [hns] at located
      simp only [bind, Except.bind] at located ⊢
      unfold viewNameOf at located ⊢
      rw [located]
      simp only
      cases Plan.ofQuery q ((q.string? QueryField.viewName).getD "") index.reduction <;> rfl

theorem rowsOf_eq (located : indexOf documents q = .ok index) :
    rowsOf documents q =
      (Plan.ofQuery q (viewNameOf q) index.reduction).map fun plan => (plan.answer index).rows :=
  map_answer_reply Answer.rows located

theorem rowsOf_of_selection {selection : Selection} {reduction : Option Reduction}
    (located : indexOf documents q = .ok index) (selects : Plan.selectionOf q = .ok selection)
    (reduces : Plan.reductionOf q (viewNameOf q) index.reduction = .ok reduction) :
    rowsOf documents q = .ok ((Plan.windowOf q).apply (Plan.rows
      ⟨Plan.directionOf q, selection, reduction, Plan.groupingOf q, Plan.windowOf q⟩ index)) := by
  rw [rowsOf_eq located, Plan.ofQuery, selects, reduces]
  rfl

section Parameters

/-! What the server reads in a query where a limit or a start was put into it. -/

theorem indexOf_limited (n : UInt64) : indexOf documents (q.limited n) = indexOf documents q := by
  simp [indexOf, namespaceOf, viewNameOf, EncodedQuery.string?, EncodedQuery.get?_limited_of_ne]

theorem indexOf_behind (text id : String) :
    indexOf documents (q.behind text id) = indexOf documents q := by
  simp [indexOf, namespaceOf, viewNameOf, EncodedQuery.string?, EncodedQuery.get?_behind_of_ne]

theorem directionOf_limited (q : EncodedQuery) (n : UInt64) :
    Plan.directionOf (q.limited n) = Plan.directionOf q := by
  have order : (q.limited n).string? QueryField.order = q.string? QueryField.order := by
    simp [EncodedQuery.string?, EncodedQuery.get?_limited_of_ne]
  rw [Plan.directionOf, order, Plan.directionOf]

theorem directionOf_behind (q : EncodedQuery) (text id : String) :
    Plan.directionOf (q.behind text id) = Plan.directionOf q := by
  have order : (q.behind text id).string? QueryField.order = q.string? QueryField.order := by
    simp [EncodedQuery.string?, EncodedQuery.get?_behind_of_ne]
  rw [Plan.directionOf, order, Plan.directionOf]

theorem windowOf_limited (q : EncodedQuery) (n : UInt64) :
    Plan.windowOf (q.limited n) = ⟨(Plan.windowOf q).skip, some n.toNat⟩ := by
  simp [Plan.windowOf, EncodedQuery.natural?, EncodedQuery.limited, EncodedQuery.get?_insert]

theorem windowOf_behind (q : EncodedQuery) (text id : String) :
    Plan.windowOf (q.behind text id) = ⟨1, (Plan.windowOf q).limit⟩ := by
  simp [Plan.windowOf, EncodedQuery.natural?, EncodedQuery.behind, EncodedQuery.get?_insert]

theorem windowOf_unlimited (unlimited : q.natural? QueryField.limit = none) :
    (Plan.windowOf q).limit = none := by
  simp [Plan.windowOf, unlimited]

theorem selectionOf_range_iff :
    Plan.selectionOf q = .ok (.range key start stop inclusive) ↔
      q.strings? QueryField.keys = none ∧ Plan.key? q .key = .ok key ∧
        (Plan.key? q .startKey).map (·.map (⟨·, q.string? QueryField.startKeyDocId⟩)) = .ok start ∧
        (Plan.key? q .endKey).map (·.map (⟨·, q.string? QueryField.endKeyDocId⟩)) = .ok stop ∧
        (q.bool? QueryField.inclusiveEnd).getD true = inclusive := by
  unfold Plan.selectionOf
  cases q.strings? QueryField.keys with
  | some texts =>
      cases hkeys : texts.mapM Plan.listedKey <;>
        simp [bind, Except.bind, pure, Except.pure, hkeys]
  | none =>
      cases Plan.key? q .key <;> cases Plan.key? q .startKey <;> cases Plan.key? q .endKey <;>
        simp [bind, Except.bind, pure, Except.pure, Except.map]

end Parameters

/-- What a query asks that is unreduced and for a range of an index. -/
structure AsksRange (documents : Dictionary DesignDocument) (q : EncodedQuery) (index : Index)
    (key : Option Json.Value) (start stop : Option Bound) (inclusive : Bool) : Prop where
  located : indexOf documents q = .ok index
  selection : Plan.selectionOf q = .ok (.range key start stop inclusive)
  unreduced : Plan.reductionOf q (viewNameOf q) index.reduction = .ok none

namespace AsksRange

theorem rowsOf (asks : AsksRange documents q index key start stop inclusive) :
    let d := Plan.directionOf q
    Store.rowsOf documents q = .ok ((Plan.windowOf q).apply
      (((Selection.range key start stop inclusive).select d (index.scan d)).map Entry.toRow)) :=
  rowsOf_of_selection asks.located asks.selection asks.unreduced

/-- Its rows are entries of the index. -/
theorem mem_rowsOf {row : Json.Value}
    (asks : AsksRange documents q index key start stop inclusive)
    (answered : Store.rowsOf documents q = .ok rows) (h : row ∈ rows) :
    ∃ e ∈ index.entries, row = e.toRow := by
  obtain rfl := Except.ok.inj (asks.rowsOf.symm.trans answered)
  obtain ⟨e, he, rfl⟩ := List.mem_map.mp ((Window.apply_sublist _ _).subset h)
  exact ⟨e, (index.scan_perm _).mem_iff.mp (List.mem_filter.mp he).1, rfl⟩

theorem limited (asks : AsksRange documents q index key start stop inclusive) (n : UInt64) :
    AsksRange documents (q.limited n) index key start stop inclusive := by
  obtain ⟨located, selection, unreduced⟩ := asks
  refine ⟨(indexOf_limited n).trans located, ?_, ?_⟩
  · simpa [selectionOf_range_iff, Plan.key?, EncodedQuery.strings?, EncodedQuery.string?,
      EncodedQuery.bool?, EncodedQuery.get?_limited_of_ne] using selection
  · simpa [Plan.reductionOf, viewNameOf, EncodedQuery.string?, EncodedQuery.bool?,
      EncodedQuery.get?_limited_of_ne] using unreduced

theorem behind (asks : AsksRange documents q index key start stop inclusive) {text : String}
    {last : Json.Value} (reads : Json.readString text = .ok last) (id : String) :
    AsksRange documents (q.behind text id) index key (some ⟨last, some id⟩) stop inclusive := by
  obtain ⟨located, selection, unreduced⟩ := asks
  refine ⟨(indexOf_behind text id).trans located, ?_, ?_⟩
  · rw [selectionOf_range_iff] at selection ⊢
    obtain ⟨listed, hkey, -, hstop, hinclusive⟩ := selection
    refine ⟨?_, ?_, ?_, ?_, ?_⟩
    · simpa [EncodedQuery.strings?, EncodedQuery.get?_behind_of_ne] using listed
    · simpa [Plan.key?, EncodedQuery.string?, EncodedQuery.get?_behind_of_ne] using hkey
    · simp [Plan.key?, EncodedQuery.string?, EncodedQuery.behind, EncodedQuery.get?_insert, reads,
        Except.map]
    · simpa [Plan.key?, EncodedQuery.string?, EncodedQuery.get?_behind_of_ne] using hstop
    · simpa [EncodedQuery.bool?, EncodedQuery.get?_behind_of_ne] using hinclusive
  · simpa [Plan.reductionOf, viewNameOf, EncodedQuery.string?, EncodedQuery.bool?,
      EncodedQuery.get?_behind_of_ne] using unreduced

/-- A limit leaves the first rows. -/
theorem rowsOf_limited (asks : AsksRange documents q index key start stop inclusive)
    (unlimited : q.natural? QueryField.limit = none)
    (answered : Store.rowsOf documents q = .ok rows) (n : UInt64) :
    Store.rowsOf documents (q.limited n) = .ok (rows.take n.toNat) := by
  have whole := asks.rowsOf
  simp only [Window.apply, windowOf_unlimited unlimited, answered, Except.ok.injEq] at whole
  rw [(asks.limited n).rowsOf, directionOf_limited, windowOf_limited, whole]
  rfl

/-- What is answered behind a row is what came after it, wherever the rows that it was found
among began. -/
theorem rowsOf_behind {startNow : Option Bound} {before later : List Json.Value}
    {last read : Json.Value} {row : Row} {id text : String} (apart : index.Apart)
    (asks : AsksRange documents q index key start stop inclusive)
    (asksNow : AsksRange documents asked index key startNow stop inclusive)
    (direction : Plan.directionOf asked = Plan.directionOf q)
    (unlimited : q.natural? QueryField.limit = none)
    (unlimitedNow : asked.natural? QueryField.limit = none)
    (answered : Store.rowsOf documents asked = .ok (before ++ last :: later))
    (decoded : Row.ofValue last = .ok row) (named : row.id = some id)
    (reads : Json.readString text = .ok read) (like : collate read row.key = .eq) :
    Store.rowsOf documents (q.behind text id) = .ok later := by
  have whole := asksNow.rowsOf
  simp only [Window.apply, windowOf_unlimited unlimitedNow, answered, Except.ok.injEq,
    direction] at whole
  have split := (List.take_append_drop (Plan.windowOf asked).skip _).symm.trans
    (congrArg (List.take (Plan.windowOf asked).skip _ ++ ·) whole.symm)
  rw [← List.append_assoc] at split
  obtain ⟨front, rest, selected, -, hrest⟩ := List.map_eq_append_iff.mp split
  obtain ⟨e, tail, rfl, rfl, rfl⟩ := List.map_eq_cons_iff.mp hrest
  obtain rfl : row = ⟨some e.id, e.key, e.value⟩ := by
    rw [QueryOptions.toRow_eq_toValue, Row.ofValue_toValue] at decoded
    exact (Except.ok.inj decoded).symm
  cases named
  rw [(asks.behind reads e.id).rowsOf, directionOf_behind, windowOf_behind,
    windowOf_unlimited unlimited, apart.select_from selected like rfl]
  rfl

/-- A full page ends with the row of an entry. -/
theorem exists_last (asks : AsksRange documents q index key start stop inclusive)
    (answered : Store.rowsOf documents q = .ok all) (within : ∀ row ∈ page, row ∈ all)
    (positive : 0 < n.toNat) (full : ¬ page.length < n.toNat) :
    ∃ e ∈ index.entries, page.getLast? = some e.toRow ∧
      Row.ofValue e.toRow = .ok ⟨some e.id, e.key, e.value⟩ := by
  have nonempty : page ≠ [] := List.ne_nil_of_length_pos (by omega)
  have ends : page.getLast? = some (page.getLast nonempty) := List.getLast?_eq_some_getLast nonempty
  obtain ⟨e, he, hrow⟩ := asks.mem_rowsOf answered (within _ (List.getLast_mem nonempty))
  refine ⟨e, he, hrow ▸ ends, ?_⟩
  rw [QueryOptions.toRow_eq_toValue, Row.ofValue_toValue]

end AsksRange

/-- A query for the rows of an index in a range, all of them and as they are. -/
structure Pageable (q : EncodedQuery) (index : Index) : Prop where
  listsNoKeys : q.strings? QueryField.keys = none
  namesNoKey : q.string? QueryField.key = none
  skipsNothing : q.natural? QueryField.skip = none
  unlimited : q.natural? QueryField.limit = none
  unreduced : q.bool? QueryField.reduce = some false ∨ index.reduction = none

theorem Pageable.reductionOf {viewName : String} {reduction : Option Reduction}
    (pageable : Pageable q index)
    (planned : Plan.reductionOf q viewName index.reduction = .ok reduction) : reduction = none := by
  unfold Plan.reductionOf at planned
  rcases pageable.unreduced with raw | none
  · rw [raw] at planned
    cases hindex : index.reduction <;> rw [hindex] at planned <;> cases planned <;> rfl
  · rw [none] at planned
    rcases hraw : q.bool? QueryField.reduce with _ | _ | _ <;> rw [hraw] at planned <;>
      cases planned <;> rfl

/-- If it is answered at all, it asks for a range. -/
theorem Pageable.asksRange (pageable : Pageable q index)
    (located : indexOf documents q = .ok index) (answered : rowsOf documents q = .ok all) :
    ∃ start stop inclusive, AsksRange documents q index none start stop inclusive := by
  have noKey : Plan.key? q .key = .ok none := by
    rw [Plan.key?, pageable.namesNoKey]
  rw [rowsOf_eq located, Plan.ofQuery, Plan.selectionOf, pageable.listsNoKeys, noKey] at answered
  cases hstart : Plan.key? q .startKey with
  | error m => rw [hstart] at answered; cases answered
  | ok startKey =>
      cases hstop : Plan.key? q .endKey with
      | error m => rw [hstart, hstop] at answered; cases answered
      | ok endKey =>
          cases hreduction : Plan.reductionOf q (viewNameOf q) index.reduction with
          | error m => rw [hstart, hstop, hreduction] at answered; cases answered
          | ok reduction =>
              obtain rfl := pageable.reductionOf hreduction
              let start := startKey.map (Bound.mk · (q.string? QueryField.startKeyDocId))
              let stop := endKey.map (Bound.mk · (q.string? QueryField.endKeyDocId))
              have selection : Plan.selectionOf q = .ok (.range none start stop _) :=
                selectionOf_range_iff.mpr ⟨pageable.listsNoKeys, noKey,
                  congrArg (Except.map _) hstart, congrArg (Except.map _) hstop, rfl⟩
              exact ⟨start, stop, _, located, selection, hreduction⟩

/-- How one comes to a page: the pages so far, which were full, and the query of the next page but
for its limit. The text of a key need not be the text of the last row's own, if only it reads as
a key that collates equal. -/
inductive Turned (documents : Dictionary DesignDocument) (q : EncodedQuery) (n : UInt64) :
    List (List Json.Value) → EncodedQuery → Prop
  | start : Turned documents q n [] q
  | turn {pages : List (List Json.Value)} {asked : EncodedQuery} {page : List Json.Value}
      {last : Json.Value} {row : Row} {id text : String} {read : Json.Value}
      (turned : Turned documents q n pages asked)
      (answered : rowsOf documents (asked.limited n) = .ok page)
      (full : ¬ page.length < n.toNat)
      (ends : page.getLast? = some last)
      (decoded : Row.ofValue last = .ok row)
      (named : row.id = some id)
      (reads : Json.readString text = .ok read)
      (like : collate read row.key = .eq) :
      Turned documents q n (pages ++ [page]) (q.behind text id)

/-- What is known at a page: what the pages so far have shown, and that the query but for its
limit is answered with all that is left. -/
structure Progress (documents : Dictionary DesignDocument) (q : EncodedQuery) (index : Index)
    (stop : Option Bound) (inclusive : Bool) (all : List Json.Value) (n : UInt64)
    (pages : List (List Json.Value)) (asked : EncodedQuery) : Prop where
  asks : ∃ start, AsksRange documents asked index none start stop inclusive
  direction : Plan.directionOf asked = Plan.directionOf q
  unlimited : asked.natural? QueryField.limit = none
  within : pages.length * n.toNat ≤ all.length
  seen : pages.flatten = all.take (pages.length * n.toNat)
  ahead : rowsOf documents asked = .ok (all.drop (pages.length * n.toNat))

theorem Progress.nextPage (progress : Progress documents q index stop inclusive all n pages asked) :
    rowsOf documents (asked.limited n) =
      .ok ((all.drop (pages.length * n.toNat)).take n.toNat) := by
  obtain ⟨start, asks⟩ := progress.asks
  exact asks.rowsOf_limited progress.unlimited progress.ahead n

namespace Turned

theorem progress (apart : index.Apart)
    (asks : AsksRange documents q index none start stop inclusive)
    (unlimited : q.natural? QueryField.limit = none)
    (answered : rowsOf documents q = .ok all) (turned : Turned documents q n pages asked) :
    Progress documents q index stop inclusive all n pages asked := by
  induction turned with
  | start => exact ⟨⟨start, asks⟩, rfl, unlimited, by simp, by simp, by simpa using answered⟩
  | @turn pages asked page last row id text read turned shown full ends decoded named reads like
      ih =>
      obtain ⟨startNow, asksNow⟩ := ih.asks
      have within := ih.within
      have taken : page = (all.drop (pages.length * n.toNat)).take n.toNat :=
        Except.ok.inj (shown.symm.trans ih.nextPage)
      have enough : pages.length * n.toNat + n.toNat ≤ all.length := by
        rw [taken, List.length_take, List.length_drop] at full
        omega
      have succ : (pages ++ [page]).length * n.toNat = pages.length * n.toNat + n.toNat := by
        rw [List.length_append, List.length_singleton, Nat.add_mul, Nat.one_mul]
      have split : all.drop (pages.length * n.toNat) =
          page.dropLast ++ last :: all.drop (pages.length * n.toNat + n.toNat) := by
        calc all.drop (pages.length * n.toNat)
            = page ++ all.drop (pages.length * n.toNat + n.toNat) := by
              rw [taken, ← List.drop_drop, List.take_append_drop]
          _ = page.dropLast ++ last :: all.drop (pages.length * n.toNat + n.toNat) := by
              conv_lhs => rw [← List.dropLast_append_getLast? last ends]
              rw [List.append_assoc, List.singleton_append]
      refine ⟨⟨_, asks.behind reads id⟩, directionOf_behind q text id, ?_, ?_, ?_, ?_⟩
      · simpa [EncodedQuery.natural?, EncodedQuery.get?_behind_of_ne] using unlimited
      · rwa [succ]
      · rw [succ, List.take_add, ← ih.seen, ← taken, List.flatten_append, List.flatten_singleton]
      · rw [succ]
        exact asks.rowsOf_behind apart asksNow ih.direction unlimited ih.unlimited
          (split ▸ ih.ahead) decoded named reads like

/-- If every key can be written down, the last page is come to. -/
theorem completes (apart : index.Apart)
    (asks : AsksRange documents q index none start stop inclusive)
    (unlimited : q.natural? QueryField.limit = none)
    (answered : rowsOf documents q = .ok all) (positive : 0 < n.toNat)
    (written : ∀ e ∈ index.entries, ∃ text read,
      Json.readString text = .ok read ∧ collate read e.key = .eq)
    (turned : Turned documents q n pages asked) :
    ∃ pages asked page, Turned documents q n pages asked ∧
      rowsOf documents (asked.limited n) = .ok page ∧ page.length < n.toNat := by
  -- Each turn leaves fewer rows.
  induction left : all.length - pages.length * n.toNat using Nat.strong_induction_on
    generalizing pages asked with
  | _ left ih =>
      have progress := turned.progress apart asks unlimited answered
      by_cases short : ((all.drop (pages.length * n.toNat)).take n.toNat).length < n.toNat
      · exact ⟨pages, asked, _, turned, progress.nextPage, short⟩
      · obtain ⟨e, he, ends, decoded⟩ := asks.exists_last answered
          (fun _ h => List.mem_of_mem_drop (List.mem_of_mem_take h)) positive short
        obtain ⟨text, read, reads, like⟩ := written e he
        refine ih _ ?_ (.turn turned progress.nextPage short ends decoded rfl reads like) rfl
        rw [List.length_take, List.length_drop] at short
        rw [List.length_append, List.length_singleton, Nat.add_mul, Nat.one_mul]
        omega

end Turned

/-- Reading page by page, with at least one row on a page, one comes to a page that is not full
after no more turns than there are full pages, and the pages up to there are exactly the rows of
the query without a limit. Nothing is lost or repeated before that either. One gets stuck only
at a key that no text reads as. -/
theorem pages_complete (located : indexOf documents q = .ok index) (apart : index.Apart)
    (pageable : Pageable q index) (answered : rowsOf documents q = .ok all)
    (positive : 0 < n.toNat) :
    (∀ pages asked, Turned documents q n pages asked →
      pages.length * n.toNat ≤ all.length ∧
        ∃ page, rowsOf documents (asked.limited n) = .ok page ∧
          pages.flatten ++ page = all.take ((pages.length + 1) * n.toNat) ∧
          (page.length < n.toNat → pages.flatten ++ page = all) ∧
          (¬ page.length < n.toNat → ∃ last row id, page.getLast? = some last ∧
            Row.ofValue last = .ok row ∧ row.id = some id)) ∧
      ((∀ e ∈ index.entries, ∃ text read,
          Json.readString text = .ok read ∧ collate read e.key = .eq) →
        ∃ pages asked page, Turned documents q n pages asked ∧
          rowsOf documents (asked.limited n) = .ok page ∧ page.length < n.toNat ∧
          pages.flatten ++ page = all) := by
  obtain ⟨start, stop, inclusive, asks⟩ := pageable.asksRange located answered
  have whole : ∀ {pages asked page}, Turned documents q n pages asked →
      rowsOf documents (asked.limited n) = .ok page →
      pages.flatten ++ page = all.take ((pages.length + 1) * n.toNat) ∧
        (page.length < n.toNat → pages.flatten ++ page = all) := by
    intro pages asked page turned shown
    have progress := turned.progress apart asks pageable.unlimited answered
    obtain rfl : _ = page := Except.ok.inj (progress.nextPage.symm.trans shown)
    have prefixed : pages.flatten ++ (all.drop (pages.length * n.toNat)).take n.toNat =
        all.take ((pages.length + 1) * n.toNat) := by
      rw [progress.seen, Nat.add_mul, Nat.one_mul, List.take_add]
    refine ⟨prefixed, fun short => prefixed.trans (List.take_of_length_le ?_)⟩
    rw [List.length_take, List.length_drop] at short
    rw [Nat.add_mul, Nat.one_mul]
    omega
  constructor
  · intro pages asked turned
    have progress := turned.progress apart asks pageable.unlimited answered
    obtain ⟨prefixed, complete⟩ := whole turned progress.nextPage
    refine ⟨progress.within, _, progress.nextPage, prefixed, complete, fun full => ?_⟩
    obtain ⟨e, -, ends, decoded⟩ := asks.exists_last answered
      (fun _ h => List.mem_of_mem_drop (List.mem_of_mem_take h)) positive full
    exact ⟨_, _, e.id, ends, decoded, rfl⟩
  · intro written
    obtain ⟨pages, asked, page, turned, shown, short⟩ :=
      Turned.completes apart asks pageable.unlimited answered positive written .start
    exact ⟨pages, asked, page, turned, shown, short, (whole turned shown).2 short⟩

section Sample

/-- Two documents have the same key. -/
def pagedIndex : Index := ⟨[
  ⟨"a", .null, .null⟩,
  ⟨"a", .number twoAsInteger, .null⟩,
  ⟨"b", .number twoAsInteger, .null⟩], none⟩

def pagedDocuments : Dictionary DesignDocument :=
  .ofPairs [("people", .ofPairs [("by_age", pagedIndex)])]

def pagedQuery : EncodedQuery :=
  .ofPairs [("document_name", .string "people"), ("view_name", .string "by_age")]

theorem asksRange_paged :
    AsksRange pagedDocuments pagedQuery pagedIndex none none none true :=
  ⟨rfl, rfl, rfl⟩

theorem rowsOf_paged :
    rowsOf pagedDocuments pagedQuery = .ok (pagedIndex.entries.map Entry.toRow) := by
  have hsorted : pagedIndex.scan .ascending = pagedIndex.entries :=
    List.mergeSort_of_pairwise (by decide +kernel)
  have hrows := asksRange_paged.rowsOf
  simp only [show Plan.directionOf pagedQuery = .ascending from rfl, hsorted] at hrows
  exact hrows

/-- The integer is also written as a float. -/
theorem readString_two :
    ∃ read, Json.readString "2.0" = .ok read ∧ collate read (.number twoAsInteger) = .eq := by
  have compared : ((Json.readString "2.0").toOption.map fun read =>
      collate read (.number twoAsInteger)) = some .eq := by decide +kernel
  obtain ⟨read, hread, like⟩ := Option.map_eq_some_iff.mp compared
  cases reads : Json.readString "2.0" with
  | error e =>
      rw [reads] at hread
      cases hread
  | ok value =>
      rw [reads] at hread
      cases hread
      exact ⟨_, rfl, like⟩

/-- In pages of two, the second page begins between the two documents. -/
theorem pages_complete_paged :
    ∃ page, rowsOf pagedDocuments ((pagedQuery.behind "2.0" "a").limited 2) = .ok page ∧
      (pagedIndex.entries.map Entry.toRow).take 2 ++ page =
        pagedIndex.entries.map Entry.toRow := by
  have apart : pagedIndex.Apart := by
    unfold Index.Apart
    decide +kernel
  have pageable : Pageable pagedQuery pagedIndex := ⟨rfl, rfl, rfl, rfl, .inr rfl⟩
  have positive : 0 < (2 : UInt64).toNat := by decide
  have shown : rowsOf pagedDocuments (pagedQuery.limited 2) =
      .ok ((pagedIndex.entries.map Entry.toRow).take 2) :=
    asksRange_paged.rowsOf_limited rfl rowsOf_paged 2
  obtain ⟨read, reads, like⟩ := readString_two
  have turned : Turned pagedDocuments pagedQuery 2
      [(pagedIndex.entries.map Entry.toRow).take 2] (pagedQuery.behind "2.0" "a") :=
    .turn .start shown (by decide) rfl rfl rfl reads like
  obtain ⟨pages, -⟩ := pages_complete rfl apart pageable rowsOf_paged positive
  obtain ⟨-, page, answered, prefixed, -, -⟩ := pages _ _ turned
  exact ⟨page, answered, prefixed⟩

end Sample

end Store

end DocViews
