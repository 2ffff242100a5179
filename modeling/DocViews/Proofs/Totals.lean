import DocViews.Proofs.Bucket
import DocViews.Proofs.Index.Keys
import DocViews.Proofs.Request.Consumption
import DocViews.Proofs.Store.Contents
import DocViews.Proofs.Store.Failures
import Mathlib.Algebra.Order.BigOperators.Group.List

/-!
How many rows a query may give, against the total that its metadata tell. The total is the size
of the index, whatever was selected. It bounds the rows as long as no entry has more than one of
the keys that are listed, for listed keys are answered one after the other.
-/

namespace DocViews

section Streams

open Request (Yields Result)

variable {κ ω σ ρ : Type} {n : Nat} {metadata : Metadata}

/-- A natural end behind so many rows, of a source that is asked up to there. -/
structure NaturalEnd [RowSource σ] (source : σ) (n : Nat) (metadata : Metadata) : Prop where
  rows : ∀ i < n, ∃ payload, RowSource.answer source i = .ok (.row payload)
  finished : RowSource.answer source n = .ok .finished
  trailer : ∃ payload, (RowSource.trailer (RowSource.after source (n + 1))).1 = .ok payload ∧
    Metadata.read payload = .ok metadata

/-- A row in front of a natural end. -/
theorem NaturalEnd.behind [RowSource σ] {source : σ} {payload : Bytes}
    (first : RowSource.answer source 0 = .ok (.row payload))
    (natural : NaturalEnd (RowSource.after source 1) n metadata) :
    NaturalEnd source (n + 1) metadata := by
  refine ⟨fun i hi => ?_, natural.finished, natural.trailer⟩
  cases i with
  | zero => exact ⟨payload, first⟩
  | succ i => exact natural.rows i (Nat.lt_of_succ_lt_succ hi)

variable [Transport κ ω σ] [RowSource σ] {r : Request κ σ ρ} {state : ω}
  {given : Result κ ω σ ρ (List (Except ViewError ρ))} {source : σ}

/-- If rows were collected without an error, they are all that there was. -/
theorem Request.Collected.eq_of_ok {items : List (Except ViewError ρ)} {rows : List ρ}
    (collected : Request.Collected items (.ok rows)) : items = rows.map .ok := by
  cases collected with
  | rows => rfl

/-- An answer behind which the request is done is the only one. -/
theorem Request.Yields.eq_single {item : Except ViewError ρ} (yields : Yields r state given)
    (found : (r.next state).answer = some item) (done : (r.next state).request.stage = .done) :
    given = { r.next state with answer := [item] } := by
  cases yields with
  | nothing none_left =>
      rw [none_left] at found
      cases found
  | item also further =>
      obtain rfl := Option.some.inj (also.symm.trans found)
      rw [further.eq_of_done done]
      simp [Result.behind]

/-- A streaming request that comes to have metadata has given a row for each of its source. -/
theorem Request.Yields.naturalEnd (yields : Yields r state given)
    (streams : r.StreamsFrom source) (ended : given.request.metadata? = some metadata) :
    ∃ rows : List ρ, given.answer = rows.map .ok ∧ NaturalEnd source rows.length metadata := by
  induction yields generalizing source with
  | @nothing r state none_left =>
      cases hrow : r.rowAt source 0 with
      | some row =>
          obtain ⟨hanswer, -⟩ := Request.next_row (n := 0) streams hrow state
          rw [none_left] at hanswer
          cases hanswer
      | none =>
          obtain ⟨result, ending⟩ :=
            (Request.endsWith_of_rowAt_eq_none hrow).ending (RowSource.after source 1)
          obtain ⟨hanswer, hrequest⟩ := Request.next_ending (n := 0) streams ending state
          rw [hrequest] at ended
          generalize hpulled : RowSource.answer source 0 = pulled at ending
          cases ending with
          | trailer answered read =>
              cases ended
              exact ⟨[], rfl, nofun, hpulled, _, answered, read⟩
          | _ => cases ended
  | @item r state item rest found further ih =>
      cases hrow : r.rowAt source 0 with
      | some row =>
          obtain ⟨hanswer, hrequest⟩ := Request.next_row (n := 0) streams hrow state
          obtain rfl : .ok row = item := Option.some.inj (hanswer.symm.trans found)
          obtain ⟨payload, hpayload, -⟩ := Request.rowAt_eq_some hrow
          have advanced : (r.next state).request.StreamsFrom (RowSource.after source 1) := by
            rw [hrequest]
            exact streams.advanced 1
          obtain ⟨rows, hrows, natural⟩ := ih advanced ended
          exact ⟨row :: rows, congrArg (Except.ok row :: ·) hrows, natural.behind hpayload⟩
      | none =>
          obtain ⟨result, ending⟩ :=
            (Request.endsWith_of_rowAt_eq_none hrow).ending (RowSource.after source 1)
          obtain ⟨hanswer, hrequest⟩ := Request.next_ending (n := 0) streams ending state
          rw [found] at hanswer
          cases result with
          | ok metadata => cases hanswer
          | error error =>
              have only := (Yields.item found further).eq_single found (by rw [hrequest]; rfl)
              rw [only] at ended
              simp only [hrequest] at ended
              cases ended

/-- So has one whose query was submitted first, and then it was not rejected. -/
theorem Request.Yields.naturalEnd_submitted {handle : κ} (yields : Yields r state given)
    (unsubmitted : r.stage = .notStarted) (held : r.transport = some handle)
    (blank : r.metadata? = none) (ended : given.request.metadata? = some metadata) :
    ∃ (source : σ) (rows : List ρ),
      (Transport.submit handle r.query r.timeout state).outcome = .ok source ∧
        given.answer = rows.map .ok ∧ NaturalEnd source rows.length metadata := by
  cases sent : (Transport.submit handle r.query r.timeout state).outcome with
  | error error =>
      obtain ⟨signals, hsubmit, -⟩ := Request.submit_rejected unsubmitted held sent
      have hnext : r.next state = _ := Request.next_notStarted unsubmitted
      simp only [hsubmit] at hnext
      have only := yields.eq_single (by rw [hnext]) (by rw [hnext]; rfl)
      rw [only, hnext] at ended
      exact absurd (blank.symm.trans ended) nofun
  | ok source =>
      obtain ⟨signals, hsubmit, -⟩ := Request.submit_accepted unsubmitted held sent
      obtain ⟨rest, further, rfl⟩ := yields.submitted (by rw [hsubmit])
      rw [hsubmit] at further
      obtain ⟨rows, hrows, natural⟩ := further.naturalEnd ⟨rfl, rfl, rfl, blank⟩ ended
      exact ⟨source, rows, rfl, hrows, natural⟩

end Streams

section Script

open ScriptedSource (isRow)

variable {n : Nat} {metadata : Metadata}

/-- A script comes to a natural end behind all its rows, and only if they are ended. -/
theorem NaturalEnd.of_script (items : List Pulled) {last : Pulled}
    {trailer : Option (Except Fault Bytes)}
    (natural : NaturalEnd (ScriptedSource.mk (items ++ [last]) trailer) n metadata)
    (rows : ∀ item ∈ items, isRow item = true) (ends : isRow last = false) :
    n = items.length ∧ last = .ok .finished ∧
      ∃ payload, trailer = some (.ok payload) ∧ Metadata.read payload = .ok metadata := by
  obtain ⟨before, finished, payload, answered, read⟩ := natural
  simp only [ScriptedSource.answer_script] at before finished
  have hlast : (items ++ [last])[items.length]? = some last := by simp
  have length : n = items.length := by
    rcases Nat.lt_trichotomy n items.length with short | same | long
    · have hrow := rows items[n] (List.getElem_mem short)
      rw [List.getElem?_append_left short, List.getElem?_eq_getElem short] at finished
      rw [show items[n] = .ok .finished from finished] at hrow
      cases hrow
    · exact same
    · obtain ⟨payload, hpayload⟩ := before items.length long
      rw [hlast] at hpayload
      rw [show last = .ok (.row payload) from hpayload] at ends
      cases ends
  rw [length, hlast] at finished
  refine ⟨length, finished, payload, ?_, read⟩
  rw [ScriptedSource.after_script] at answered
  cases trailer with
  | none => cases answered
  | some given => exact congrArg some answered

end Script

namespace Store

variable {store : Store} {q : EncodedQuery} {n : Nat} {metadata : Metadata}

/-- The stream of a reply comes to a natural end only behind all its rows, with its trailer. -/
theorem Reply.naturalEnd {r : Reply} {failAfter : Option Nat}
    (natural : NaturalEnd (r.source failAfter) n metadata) :
    n = r.answer.rows.length ∧ Metadata.read r.trailer.bytes = .ok metadata := by
  have whole : ∀ {source : ScriptedSource}, source =
      ⟨r.answer.rows.map rowItem ++ [.ok .finished], some (.ok r.trailer.bytes)⟩ →
      NaturalEnd source n metadata →
      n = r.answer.rows.length ∧ Metadata.read r.trailer.bytes = .ok metadata := by
    rintro source rfl natural
    obtain ⟨hlength, -, payload, htrailer, read⟩ :=
      natural.of_script _ (fun _ => isRow_rowItem) rfl
    cases htrailer
    exact ⟨by simpa using hlength, read⟩
  cases failAfter with
  | none => exact whole rfl natural
  | some rows =>
      by_cases breaks : rows ≤ r.answer.rows.length
      · rw [show r.source (some rows) = _ from if_pos breaks] at natural
        obtain ⟨-, ended, -⟩ := natural.of_script _ (fun _ => isRow_rowItem) rfl
        cases ended
      · exact whole (if_neg breaks) natural

theorem naturalEnd_submit {source : ScriptedSource} {timeout : Duration}
    (sent : (store.submit q timeout).outcome = .ok source)
    (natural : NaturalEnd source n metadata) :
    ∃ r, reply store.documents q = .ok r ∧ n = r.answer.rows.length ∧
      Metadata.read r.trailer.bytes = .ok metadata := by
  cases armed : store.failNextSubmit with
  | some error =>
      rw [submit_rejected armed] at sent
      cases sent
  | none =>
      rw [submit_accepted armed] at sent
      cases hreply : reply store.documents q with
      | error m =>
          simp only [hreply, Except.ok.injEq] at sent
          rw [← sent] at natural
          obtain ⟨-, ended, -⟩ := natural.of_script [] nofun rfl
          cases ended
      | ok r =>
          simp only [hreply, Except.ok.injEq] at sent
          rw [← sent] at natural
          exact ⟨r, rfl, r.naturalEnd natural⟩

end Store

/-- Whether an entry has a key that was given, as this is read from its text. -/
def Entry.hasKey (e : Entry) (key : Json.Value) : Bool :=
  match Json.readString key.text with
  | .ok read => sameKey e.key read
  | .error _ => false

/-- How many of the keys that are listed an entry has, or one if none are listed. -/
def QueryOptions.mentions (o : QueryOptions) (e : Entry) : Nat :=
  match o.keys with
  | some keys => keys.countP e.hasKey
  | none => 1

/-- What listed keys select is counted entry by entry. -/
theorem Selection.length_select_keys (listed : List Json.Value) (d : Direction)
    (scanned : List Entry) :
    ((Selection.keys listed).select d scanned).length =
      (scanned.map fun e => listed.countP (sameKey e.key)).sum := by
  rw [select, (flatMap_filter_perm (fun key (e : Entry) => sameKey e.key key) listed
    scanned).length_eq, List.length_flatMap]
  simp only [List.length_replicate]

theorem Plan.answer_unreduced {plan : Plan} (unreduced : plan.reduction = none) (index : Index) :
    (plan.answer index).totalRows = some index.entries.length ∧
      (plan.answer index).rows.length ≤ (plan.selected index).length := by
  have rows := (plan.window.apply_sublist (plan.rows index)).length_le
  unfold Plan.rows at rows
  simp only [unreduced, List.length_map] at rows
  unfold Plan.answer Plan.rows
  simp only [unreduced]
  exact ⟨rfl, rows⟩

namespace Query.Encodes

variable {q : EncodedQuery} {designDocument viewName : String} {o : QueryOptions} {index : Index}
  {selection : Selection}

/-- The listed keys that the server reads are in an entry as often as those that were given. -/
theorem countP_listed {keys listed : List Json.Value}
    (reads : (keys.map (·.text)).mapM Plan.listedKey = .ok listed) (e : Entry) :
    listed.countP (sameKey e.key) = keys.countP e.hasKey := by
  rw [Plan.mapM_listedKey_iff, List.forall₂_map_left_iff] at reads
  induction reads with
  | nil => rfl
  | cons first _ ih =>
      rw [List.countP_cons, List.countP_cons, ih]
      simp only [Entry.hasKey, first]

/-- No more is selected than the entries are mentioned. -/
theorem length_select_le (enc : Query.Encodes q designDocument viewName o)
    (selects : Plan.selectionOf q = .ok selection) (d : Direction) (scanned : List Entry) :
    (selection.select d scanned).length ≤ (scanned.map o.mentions).sum := by
  unfold Plan.selectionOf at selects
  rw [enc.keys] at selects
  unfold QueryOptions.mentions
  cases hkeys : o.keys with
  | some keys =>
      rw [hkeys] at selects
      cases hread : (keys.map (·.text)).mapM Plan.listedKey with
      | error m => simp [hread, bind, Except.bind] at selects
      | ok listed =>
          simp only [Option.map_some, hread, bind, Except.bind, pure, Except.pure,
            Except.ok.injEq] at selects
          subst selects
          rw [Selection.length_select_keys]
          simp only [countP_listed hread]
          exact Nat.le_refl _
  | none =>
      rw [hkeys] at selects
      obtain ⟨key, start, stop, inclusive, rfl⟩ : ∃ key start stop inclusive,
          selection = .range key start stop inclusive := by
        revert selects
        cases Plan.key? q .key <;> cases Plan.key? q .startKey <;> cases Plan.key? q .endKey <;>
          intro selects <;> cases selects
        exact ⟨_, _, _, _, rfl⟩
      simpa [Selection.select] using List.length_filter_le _ scanned

end Query.Encodes

namespace Store

variable {store : Store} {q : EncodedQuery} {designDocument viewName : String} {o : QueryOptions}
  {index : Index} {r : Reply} {metadata : Metadata}

theorem locate_of_index? {qualified : String}
    (found : store.index? qualified viewName = some index) :
    locate store.documents qualified viewName = .ok index := by
  unfold index? at found
  unfold locate
  cases hviews : store.documents.find? qualified with
  | none => simp [hviews] at found
  | some views =>
      simp only [hviews, Option.bind_eq_bind, Option.bind_some] at found
      simp only [found]

theorem found_of_reply (enc : Query.Encodes q designDocument viewName o)
    (replies : reply store.documents q = .ok r) :
    ∃ index, store.index? (o.qualified designDocument) viewName = some index := by
  rw [reply_steps enc] at replies
  cases hlocate : locate store.documents (o.qualified designDocument) viewName with
  | error m => simp [hlocate, bind, Except.bind] at replies
  | ok index => exact ⟨index, (evaluate_of_locate hlocate).1⟩

/-- An unreduced reply tells the size of the index, and has no more rows than its entries are
mentioned. -/
theorem reply_unreduced (enc : Query.Encodes q designDocument viewName o)
    (found : store.index? (o.qualified designDocument) viewName = some index)
    (unreduced : o.reduction index = none) (replies : reply store.documents q = .ok r) :
    r.answer.totalRows = some index.entries.length ∧
      r.answer.rows.length ≤ (index.entries.map o.mentions).sum ∧
      ∃ matched : Nat, r.debug = if o.debug = some true then
          some (.object [
            ("design_document", .string (o.qualified designDocument)),
            ("matched_rows", .ofNat matched),
            ("view", .string viewName)])
        else none := by
  rw [reply_steps enc, locate_of_index? found] at replies
  cases hselects : Plan.selectionOf q with
  | error m => simp [Plan.ofQuery, hselects, bind, Except.bind] at replies
  | ok selection =>
      have hplan := enc.ofQuery_eq_of_selection hselects index
      by_cases refused : o.reduce = some true ∧ index.reduction = none
      · rw [if_pos refused] at hplan
        simp [hplan, Plan.refuse, bind, Except.bind] at replies
      · rw [if_neg refused] at hplan
        simp only [hplan, bind, Except.bind, pure, Except.pure, Except.ok.injEq,
          debugMembers] at replies
        subst replies
        have raw : ({ o.plan index with selection } : Plan).reduction = none := unreduced
        obtain ⟨total, fewer⟩ := Plan.answer_unreduced raw index
        refine ⟨total, fewer.trans ?_, _, rfl⟩
        have scanned : ((index.scan o.direction).map o.mentions).sum =
            (index.entries.map o.mentions).sum := ((index.scan_perm _).map _).sum_eq
        rw [← scanned]
        exact enc.length_select_le hselects _ _

/-- So its trailer is read as the size of the index, which is a length of what is held in memory
and so can be counted. -/
theorem totalRows_of_reply (enc : Query.Encodes q designDocument viewName o)
    (found : store.index? (o.qualified designDocument) viewName = some index)
    (counted : index.entries.length < 0x10000000000000000)
    (unreduced : o.reduction index = none) (replies : reply store.documents q = .ok r)
    (read : Metadata.read r.trailer.bytes = .ok metadata) :
    metadata.totalRows.toNat = index.entries.length := by
  obtain ⟨total, -, matched, debug⟩ := reply_unreduced enc found unreduced replies
  obtain ⟨said, back⟩ : ∃ said, Option.Rel
      (fun v read => Json.ReadAs Json.fieldLevels v read ∧ read ≠ .null) r.debug said := by
    rw [debug]
    have nested : Json.Nested 125 (.ofNat matched) := .ofInt _
    obtain ⟨count, hcount, -⟩ := nested.readAs
    split
    · exact ⟨some _, .some ⟨readAs_debug _ _ hcount, nofun⟩⟩
    · exact ⟨none, .none⟩
  have fits : ∀ n ∈ r.answer.totalRows, n < 0x10000000000000000 := by
    intro n hn
    rw [total] at hn
    cases hn
    exact counted
  rw [read_trailer fits back, total] at read
  cases read
  exact UInt64.toNat_ofNat_of_lt' counted

end Store

namespace Bucket

variable {b : Bucket} {designDocument viewName : String} {o : QueryOptions} {store : Store}
  {signals : List Signal}

/-- A query that is opened for a view and drained to its natural end. If it is unreduced, its
metadata tell the size of the index. It has given no more rows than the entries are mentioned,
so no more than the total unless some entry has more than one of the listed keys. -/
theorem totalRows_bounds {ρ : Type} [RowType ρ] {request : Request Route ScriptedSource ρ}
    {given : Request.Result Route Store ScriptedSource ρ (List (Except ViewError ρ))}
    {metadata : Metadata}
    (opened : b.viewQuery Route.store designDocument viewName o = .ok (request, signals))
    (counted : ∀ index, store.index? (o.qualified designDocument) viewName = some index →
      index.entries.length < 0x10000000000000000)
    (unreduced : ∀ index, store.index? (o.qualified designDocument) viewName = some index →
      o.reduction index = none)
    (drained : Request.Yields request store given)
    (ended : given.request.metadata? = some metadata) :
    ∃ (index : Index) (rows : List ρ),
      store.index? (o.qualified designDocument) viewName = some index ∧
        given.answer = rows.map .ok ∧
        metadata.totalRows.toNat = index.entries.length ∧
        rows.length ≤ (index.entries.map o.mentions).sum ∧
        ((∀ e ∈ index.entries, o.mentions e ≤ 1) →
          rows.length ≤ metadata.totalRows.toNat) := by
  obtain ⟨enc, hnew⟩ := viewQuery_ok opened
  obtain ⟨source, rows, sent, hrows, natural⟩ := drained.naturalEnd_submitted
    (by rw [hnew]; rfl) (by rw [hnew]; rfl) (by rw [hnew]; rfl) ended
  obtain ⟨r, replies, hlength, read⟩ := Store.naturalEnd_submit sent natural
  obtain ⟨index, found⟩ := Store.found_of_reply enc replies
  obtain ⟨-, few, -⟩ := Store.reply_unreduced enc found (unreduced index found) replies
  have total := Store.totalRows_of_reply enc found (counted index found) (unreduced index found)
    replies read
  refine ⟨index, rows, found, hrows, total, hlength ▸ few, fun once => ?_⟩
  have sum_le : (index.entries.map o.mentions).sum ≤ (index.entries.map o.mentions).length • 1 :=
    List.sum_le_card_nsmul _ _ (List.forall_mem_map.mpr once)
  rw [List.length_map, Nat.nsmul_eq_mul, Nat.mul_one] at sum_le
  rw [total, hlength]
  exact few.trans sum_le

/-- A query on a store without failures ahead is drained to what it means. -/
theorem yields_evaluated {request : Request Route ScriptedSource Row} {result : Evaluation}
    (accepts : store.failNextSubmit = none) (lasts : store.failStreamAfter = none)
    (plain : o.serializer = none)
    (opened : b.viewQuery Route.store designDocument viewName o = .ok (request, signals))
    (keys : o.KeysReadable) (fit : store.CountsFit o designDocument viewName)
    (meant : o.evaluate store designDocument viewName = .ok result)
    (rows : result.RowsReadable) :
    ∃ given, Request.Yields request store given ∧ given.answer = result.rows.map .ok ∧
      given.request.metadata? = some result.metadata := by
  obtain ⟨enc, hnew⟩ := viewQuery_ok opened
  have fresh := viewQuery_fresh plain opened
  have sound : request.Sound := by
    rw [hnew]
    exact Request.Origin.sound _ (.transport Route.store request.timeout)
  obtain ⟨r, replies, hrows, read⟩ : ∃ r, Store.reply store.documents request.query = .ok r ∧
      r.answer.rows = result.rows.map Row.toValue ∧
      Metadata.read r.trailer.bytes = .ok result.metadata := by
    rcases Store.reply_evaluate enc keys fit with
      ⟨_, r, also, replies, hrows, read, -⟩ | ⟨m, refused, -⟩
    · cases also.symm.trans meant
      exact ⟨r, replies, hrows, read⟩
    · cases refused.symm.trans meant
  have accepted := Store.submit_reply accepts lasts replies request.timeout
  rw [hrows] at accepted
  obtain ⟨hanswer, -, hmetadata⟩ := Request.execute_whole fresh.unsubmitted fresh.held fresh.blank
    accepted (fresh.decodeRow_rows rows) read
  obtain ⟨given, verdict, yields, collected, -, hexecute⟩ :=
    Request.drained sound (by rw [fresh.unsubmitted]; nofun) store
  rw [hexecute] at hanswer hmetadata
  simp only at hanswer
  rw [hanswer] at collected
  exact ⟨given, yields, collected.eq_of_ok, hmetadata⟩

section Sample

/-- An index of one entry, under the key null. -/
def loneIndex : Index := ⟨[⟨"a", .null, .null⟩], none⟩

def loneStore : Store where
  documents := .ofPairs [("people", .ofPairs [("by_age", loneIndex)])]

/-- The key null is listed so many times. -/
def nullKeys (times : Nat) : QueryOptions where
  keys := some (List.replicate times .null)

theorem selected_nullKeys (times : Nat) :
    (nullKeys times).selected loneIndex = List.replicate times ⟨"a", .null, .null⟩ := by
  have hscan : (nullKeys times).scan loneIndex = loneIndex.entries :=
    List.mergeSort_singleton (⟨"a", .null, .null⟩ : Entry)
  unfold QueryOptions.selected
  rw [hscan]
  exact List.flatMap_replicate.trans List.flatten_replicate_singleton

/-- The entry is given each time that its key is listed, and the total is always one. -/
theorem drained_nullKeys (times : Nat) (few : times < 0x10000000000000000) :
    ∃ (request : Request Route ScriptedSource Row) (signals : List Signal)
      (given : Request.Result Route Store ScriptedSource Row (List (Except ViewError Row))),
      (Bucket.mk "default" {}).viewQuery Route.store "people" "by_age" (nullKeys times) =
        .ok (request, signals) ∧
      Request.Yields request loneStore given ∧
      given.answer = (List.replicate times ⟨some "a", .null, .null⟩).map .ok ∧
      given.request.metadata? = some ⟨1, none⟩ := by
  have rows : (nullKeys times).rows loneIndex =
      List.replicate times ⟨some "a", .null, .null⟩ := by
    have all : (nullKeys times).allRows loneIndex =
        ((nullKeys times).selected loneIndex).map fun e => ⟨some e.id, e.key, e.value⟩ := rfl
    rw [selected_nullKeys, List.map_replicate] at all
    exact all
  have meant : (nullKeys times).evaluate loneStore "people" "by_age" =
      .ok ⟨List.replicate times ⟨some "a", .null, .null⟩, ⟨1, none⟩, false⟩ := by
    rw [← rows]
    rfl
  have keys : (nullKeys times).KeysReadable := by
    apply QueryOptions.keysReadable_of_exact
    intro key hkey
    have listed : key ∈ List.replicate times .null := by
      simpa [QueryOptions.givenKeys, nullKeys] using hkey
    rw [List.eq_of_mem_replicate listed]
    exact .null
  have fit : loneStore.CountsFit (nullKeys times) "people" "by_age" := by
    intro index hindex
    obtain rfl : loneIndex = index := Option.some.inj hindex
    rw [selected_nullKeys, List.length_replicate]
    exact ⟨by decide, few⟩
  have readable : Evaluation.RowsReadable
      ⟨List.replicate times ⟨some "a", .null, .null⟩, ⟨1, none⟩, false⟩ := by
    apply Evaluation.rowsReadable_of_exact
    intro row hrow
    rw [List.eq_of_mem_replicate hrow]
    exact ⟨.null, .null⟩
  obtain ⟨given, drained, answer, ended⟩ :=
    yields_evaluated rfl rfl rfl rfl keys fit meant readable
  exact ⟨_, _, given, rfl, drained, answer, ended⟩

/-- If its key is listed once, the only entry is given once. -/
theorem totalRows_bounds_single :
    ∃ (request : Request Route ScriptedSource Row) (signals : List Signal)
      (given : Request.Result Route Store ScriptedSource Row (List (Except ViewError Row)))
      (metadata : Metadata) (rows : List Row),
      (Bucket.mk "default" {}).viewQuery Route.store "people" "by_age" (nullKeys 1) =
        .ok (request, signals) ∧
      Request.Yields request loneStore given ∧
      given.request.metadata? = some metadata ∧
      given.answer = rows.map .ok ∧
      rows = [⟨some "a", .null, .null⟩] ∧
      rows.length ≤ metadata.totalRows.toNat := by
  obtain ⟨request, signals, given, opened, drained, answer, ended⟩ :=
    drained_nullKeys 1 (by decide)
  have counted : ∀ index, loneStore.index? ((nullKeys 1).qualified "people") "by_age" = some index →
      index.entries.length < 0x10000000000000000 := by
    rintro _ ⟨⟩
    decide
  have unreduced : ∀ index,
      loneStore.index? ((nullKeys 1).qualified "people") "by_age" = some index →
        (nullKeys 1).reduction index = none := by
    rintro _ ⟨⟩
    rfl
  obtain ⟨index, rows, found, hrows, -, -, bound⟩ :=
    totalRows_bounds opened counted unreduced drained ended
  have once : ∀ e ∈ index.entries, (nullKeys 1).mentions e ≤ 1 :=
    fun e _ => List.countP_le_length
  refine ⟨request, signals, given, _, rows, opened, drained, ended, hrows, ?_, bound once⟩
  exact List.map_injective_iff.mpr (fun _ _ => Except.ok.inj) (hrows.symm.trans answer)

/-- If its key is listed twice, the only entry is given twice, out of a total of one. -/
theorem totalRows_exceeded :
    ∃ (request : Request Route ScriptedSource Row) (signals : List Signal)
      (given : Request.Result Route Store ScriptedSource Row (List (Except ViewError Row)))
      (metadata : Metadata) (rows : List Row),
      (Bucket.mk "default" {}).viewQuery Route.store "people" "by_age" (nullKeys 2) =
        .ok (request, signals) ∧
      loneStore.index? ((nullKeys 2).qualified "people") "by_age" = some loneIndex ∧
      (nullKeys 2).reduction loneIndex = none ∧
      Request.Yields request loneStore given ∧
      given.request.metadata? = some metadata ∧
      given.answer = rows.map .ok ∧
      metadata.totalRows.toNat < rows.length := by
  obtain ⟨request, signals, given, opened, drained, answer, ended⟩ :=
    drained_nullKeys 2 (by decide)
  exact ⟨request, signals, given, _, _, opened, rfl, rfl, drained, ended, answer, by decide⟩

end Sample

end Bucket

end DocViews
