import DocViews.Proofs.Index.Keys
import DocViews.Proofs.Store.Grouped

/-!
The rows that the server has for a query that lists keys. It goes from key to key and not along the
index, and whatever else the query has that would select is not looked at. One text in the list
that is no key is enough for the whole query to be refused.
-/

namespace DocViews

open Json (Value)

/-- The marker for a listed text that does not read as a key. -/
def unlistable (error : Json.Error) : Marker :=
  ⟨3, "invalid keys entry: " ++ error.message, none⟩

namespace Plan

variable {q : EncodedQuery} {texts : List String}

/-- The first text that does not read is reported. -/
theorem mapM_listedKey_unreadable
    (unreadable : ∃ text ∈ texts, ∀ key, Json.readString text ≠ .ok key) :
    ∃ text ∈ texts, ∃ error, Json.readString text = .error error ∧
      texts.mapM listedKey = .error (unlistable error) := by
  induction texts with
  | nil =>
      obtain ⟨_, h, -⟩ := unreadable
      cases h
  | cons text texts ih =>
      cases first : Json.readString text with
      | error error =>
          refine ⟨text, List.mem_cons_self, error, first, ?_⟩
          rw [List.mapM_cons, listedKey, first]
          rfl
      | ok key =>
          have rest : ∃ text ∈ texts, ∀ key, Json.readString text ≠ .ok key := by
            obtain ⟨other, h, fails⟩ := unreadable
            refine ⟨other, (List.mem_cons.mp h).resolve_left ?_, fails⟩
            rintro rfl
            exact fails key first
          obtain ⟨other, h, error, fails, refused⟩ := ih rest
          refine ⟨other, List.mem_cons_of_mem _ h, error, fails, ?_⟩
          rw [List.mapM_cons, listedKey, first, refused]
          rfl

theorem selectionOf_eq (listed : q.strings? QueryField.keys = some texts) :
    selectionOf q = (texts.mapM listedKey).map Selection.keys := by
  simp only [selectionOf, listed]
  cases texts.mapM listedKey <;> rfl

end Plan

namespace Store

variable {documents : Dictionary DesignDocument} {q : EncodedQuery} {index : Index}
  {texts : List String} {keys : List Value} {reduction : Reduction} {m : Marker}

theorem reply_error_of_selectionOf (located : indexOf documents q = .ok index)
    (refused : Plan.selectionOf q = .error m) : reply documents q = .error m := by
  have rows : rowsOf documents q = .error m := by
    rw [rowsOf_eq located, Plan.ofQuery, refused]
    rfl
  unfold rowsOf at rows
  cases replies : reply documents q with
  | ok r =>
      rw [replies] at rows
      cases rows
  | error other =>
      rw [replies] at rows
      cases rows
      rfl

section Keys

variable (located : indexOf documents q = .ok index)
  (selects : Plan.selectionOf q = .ok (.keys keys))

include located selects

theorem rowsOf_keys (raw : q.Unreduced index) :
    rowsOf documents q = .ok ((Plan.windowOf q).apply
      ((keys.flatMap (index.under (Plan.directionOf q))).map Entry.toRow)) :=
  rowsOf_of_selection located selects (raw.reductionOf _)

theorem rowsOf_keys_grouped (reduces : q.Reduces index reduction)
    (whole : q.bool? QueryField.group = some true)
    (apart : keys.Pairwise fun a b => collate a b ≠ .eq) :
    rowsOf documents q = .ok ((Plan.windowOf q).apply ((keys.filter index.has).map fun key =>
      let block := index.under (Plan.directionOf q) key
      Reduction.row (Reduction.lastKey block) (reduction.apply block))) := by
  have exactly : Plan.groupingOf q = .exact := by
    rw [Plan.groupingOf, whole]
  have blocks : Selection.select (.keys keys) (Plan.directionOf q)
      (index.scan (Plan.directionOf q)) = keys.flatMap (index.under (Plan.directionOf q)) := rfl
  rw [rowsOf_selection located reduces selects, exactly, Reduction.rows_eq Grouping.noConfusion,
    blocks, Index.groups_flatMap_under apart, List.map_map]
  rfl

theorem reply?_keys_grouped (reduces : q.Reduces index reduction)
    (whole : q.bool? QueryField.group = some true)
    (apart : keys.Pairwise fun a b => collate a b ≠ .eq) :
    reply? documents q = none ↔ ∃ key ∈ keys.filter index.has,
      reduction.overflows (index.under (Plan.directionOf q) key) = true := by
  have exactly : Plan.groupingOf q = .exact := by
    rw [Plan.groupingOf, whole]
  have blocks : Selection.select (.keys keys) (Plan.directionOf q)
      (index.scan (Plan.directionOf q)) = keys.flatMap (index.under (Plan.directionOf q)) := rfl
  rw [reply?_selection located reduces selects, exactly,
    Reduction.rowsOverflow_iff Grouping.noConfusion, blocks, Index.groups_flatMap_under apart]
  simp only [List.mem_map, exists_exists_and_eq_and]

end Keys

section Sample

def visitsListed (texts : List String) : EncodedQuery :=
  visitQuery [(.keys, .strings texts), (.order, .string "descending")]

def tripsListed (texts : List String) : EncodedQuery :=
  visitQuery [(.keys, .strings texts), (.group, .bool true)]

end Sample

/-- The rows for listed keys, whatever else the query has that selects. Where all of them read,
the entries come in one block after another, in the order of the list. So each is there as often as
keys are listed that tie with its own. Grouped by key there is a row for each listed key that has
entries, as long as no two listed keys tie, and a build with overflow checks has no rows at all
where one of these blocks overflows. Where a listed key does not read there is no row but one
marker. -/
theorem rowsOf_listed (located : indexOf documents q = .ok index)
    (listed : q.strings? QueryField.keys = some texts) :
    let d := Plan.directionOf q
    (∀ keys, List.Forall₂ (Json.readString · = .ok ·) texts keys →
      (q.Unreduced index → rowsOf documents q = .ok ((Plan.windowOf q).apply
        ((keys.flatMap (index.under d)).map Entry.toRow))) ∧
      (∀ key, (index.under d key).Pairwise fun a b => (d.turn (compare a.id b.id)).isLE) ∧
      (keys.flatMap (index.under d)).Perm (index.entries.flatMap fun e =>
        List.replicate (keys.countP fun key => sameKey e.key key) e) ∧
      (keys.Pairwise (fun a b => collate a b ≠ .eq) → q.bool? QueryField.group = some true →
        ∀ reduction, q.Reduces index reduction →
          rowsOf documents q = .ok ((Plan.windowOf q).apply
            ((keys.filter index.has).map fun key =>
              let block := index.under d key
              Reduction.row (Reduction.lastKey block) (reduction.apply block))) ∧
          (reply? documents q = none ↔
            ∃ key ∈ keys.filter index.has, reduction.overflows (index.under d key) = true))) ∧
    ((∃ text ∈ texts, ∀ key, Json.readString text ≠ .ok key) →
      ∃ text ∈ texts, ∃ error, Json.readString text = .error error ∧
        let m := unlistable error
        (∀ (store : Store) (timeout : Duration), store.documents = documents →
          store.failNextSubmit = none →
            (store.submit q timeout).outcome = .ok ⟨[.ok (.marker m)], none⟩) ∧
        ViewError.ofMarker m = .invalidRequest m.message) := by
  refine ⟨fun keys reads => ?_, fun unreadable => ?_⟩
  · have selects : Plan.selectionOf q = .ok (.keys keys) := by
      rw [Plan.selectionOf_eq listed, Plan.mapM_listedKey_iff.mpr reads]
      rfl
    refine ⟨rowsOf_keys located selects, index.under_ordered _, index.flatMap_under_perm _ keys, ?_⟩
    intro apart whole reduction reduces
    exact ⟨rowsOf_keys_grouped located selects reduces whole apart,
      reply?_keys_grouped located selects reduces whole apart⟩
  · obtain ⟨text, h, error, fails, refused⟩ := Plan.mapM_listedKey_unreadable unreadable
    have replies : reply documents q = .error (unlistable error) := by
      apply reply_error_of_selectionOf located
      rw [Plan.selectionOf_eq listed, refused]
      rfl
    refine ⟨text, h, error, fails, ?_, rfl⟩
    rintro store timeout rfl accepts
    exact submit_refusal accepts replies timeout

/-- A key that is listed twice has its entries twice, one without entries has no row, and a text
that is no key spoils the others. -/
theorem rowsOf_listed_visits :
    rowsOf visitDocuments (visitsListed ["true", "null", "true"]) =
        .ok ((["c", "b", "a"].map fun id => Entry.toRow ⟨id, .bool true, .null⟩) ++
          [Entry.toRow ⟨"b", .null, .null⟩] ++
          ["c", "b", "a"].map fun id => Entry.toRow ⟨id, .bool true, .null⟩) ∧
      rowsOf tripDocuments (tripsListed ["[true]", "false", "null"]) = .ok [
        Reduction.row (.array [.bool true]) (.ofNat 1), Reduction.row .null (.ofNat 1)] ∧
      ∃ error, (submit { documents := visitDocuments } (visitsListed ["true", "nul"])
        (.ofSeconds 1)).outcome =
        .ok ⟨[.ok (.marker (unlistable error))], none⟩ := by
  have visited : visitIndex.scan .descending = visitIndex.entries.reverse :=
    congrArg List.reverse scan_visits
  refine ⟨?_, ?_, ?_⟩
  · let q := visitsListed ["true", "null", "true"]
    have located : indexOf visitDocuments q = .ok visitIndex := rfl
    have listed : q.strings? QueryField.keys = some ["true", "null", "true"] := rfl
    have reads : List.Forall₂ (Json.readString · = .ok ·) ["true", "null", "true"]
      [.bool true, .null, .bool true] := .cons rfl (.cons rfl (.cons rfl .nil))
    have down : Plan.directionOf q = .descending := rfl
    obtain ⟨unreduced, -⟩ := (rowsOf_listed located listed).1 _ reads
    rw [unreduced (.inr ⟨rfl, nofun⟩), down, Index.under_of_scan visited]
    rfl
  · let q := tripsListed ["[true]", "false", "null"]
    have located : indexOf tripDocuments q = .ok tripIndex := rfl
    have listed : q.strings? QueryField.keys = some ["[true]", "false", "null"] := rfl
    have reads : List.Forall₂ (Json.readString · = .ok ·) ["[true]", "false", "null"]
      [.array [.bool true], .bool false, .null] := .cons rfl (.cons rfl (.cons rfl .nil))
    have up : Plan.directionOf q = .ascending := rfl
    obtain ⟨-, -, -, rows⟩ := (rowsOf_listed located listed).1 _ reads
    rw [(rows (by decide +kernel) rfl .count ⟨rfl, nofun⟩).1, up, Index.under_of_scan scan_trips]
    rfl
  · let q := visitsListed ["true", "nul"]
    have located : indexOf visitDocuments q = .ok visitIndex := rfl
    have listed : q.strings? QueryField.keys = some ["true", "nul"] := rfl
    obtain ⟨-, -, error, -, submitted, -⟩ :=
      (rowsOf_listed located listed).2 ⟨"nul", by decide, nofun⟩
    exact ⟨error, submitted { documents := visitDocuments } _ rfl rfl⟩

end Store

end DocViews
