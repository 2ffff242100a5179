import DocViews.Query.Options
import DocViews.Row
import DocViews.Metadata
import DocViews.Store

/-!
What a query means: its options, taken as they were given, evaluated on the indexes of a
store. Nothing here knows how a query is encoded, nor how rows are sent.
-/

namespace DocViews

structure Evaluation where
  rows : List Row
  metadata : Metadata
  /-- Whether a sum overflows on the way to the rows: they are those of a build without overflow
  checks, and any other build panics. -/
  overflows : Bool

/-- Whether the rows are read back from their own texts. -/
def Evaluation.RowsReadable (result : Evaluation) : Prop :=
  ∀ row ∈ result.rows, Json.read row.toValue.bytes = .ok row.toValue

namespace QueryOptions

def givenKeys (o : QueryOptions) : List Json.Value :=
  o.key.toList ++ o.keys.getD [] ++ o.startKey.toList ++ o.endKey.toList

/-- Whether the keys among the options are read back from their own texts. -/
def KeysReadable (o : QueryOptions) : Prop :=
  ∀ key ∈ o.givenKeys, Json.readString key.text = .ok key

def descending (o : QueryOptions) : Bool := o.order == some .descending

/-- The entries by key, then by document, or the other way round. -/
def scan (o : QueryOptions) (index : Index) : List Entry :=
  let sorted := index.entries.mergeSort fun a b =>
    ((collate a.key b.key).then (compare a.id b.id)).isLE
  if o.descending then sorted.reverse else sorted

/-- Whether an entry has a smaller key, or this key and a smaller document than the one named. -/
def below (key : Json.Value) (docId : Option String) (e : Entry) : Bool :=
  collate e.key key == .lt || (collate e.key key == .eq && docId.any fun id => e.id < id)

/-- Whether an entry has a larger key, or this key and a larger document than the one named. -/
def above (key : Json.Value) (docId : Option String) (e : Entry) : Bool :=
  collate e.key key == .gt || (collate e.key key == .eq && docId.any fun id => id < e.id)

/-- Whether the scan meets an entry before it is at a bound. -/
def before (o : QueryOptions) (key : Json.Value) (docId : Option String) (e : Entry) : Bool :=
  if o.descending then above key docId e else below key docId e

/-- Whether the scan meets an entry when it is past a bound. -/
def past (o : QueryOptions) (key : Json.Value) (docId : Option String) (e : Entry) : Bool :=
  if o.descending then below key docId e else above key docId e

/-- Whether an entry has the key that is asked for and lies in the range. -/
def admits (o : QueryOptions) (e : Entry) : Bool :=
  (o.key.all fun key => collate e.key key == .eq) &&
  (o.startKey.all fun key => !o.before key o.startKeyDocId e) &&
  (o.endKey.all fun key =>
    if o.inclusiveEnd.getD true then !o.past key o.endKeyDocId e
    else o.before key o.endKeyDocId e)

/-- The entries that are asked for: those of one listed key after the other, or those in the
range. -/
def selected (o : QueryOptions) (index : Index) : List Entry :=
  match o.keys with
  | some keys => keys.flatMap fun key => (o.scan index).filter fun e => collate e.key key == .eq
  | none => (o.scan index).filter o.admits

def reduction (o : QueryOptions) (index : Index) : Option Reduction :=
  if o.reduce = some false then none else index.reduction

/-- The part of a key by which entries are grouped: all of it, or its first items. -/
def groupKey (o : QueryOptions) (key : Json.Value) : Json.Value :=
  match o.group, o.groupLevel, key with
  | some true, _, key => key
  | _, some level, .array items => .array (items.take level.toNat)
  | _, _, key => key

/-- The groups of neighbours that agree in their keys as far as these matter. -/
def groups (o : QueryOptions) (entries : List Entry) : List (List Entry) :=
  entries.splitBy fun a b => collate (o.groupKey a.key) (o.groupKey b.key) == .eq

def isGrouped (o : QueryOptions) : Bool := o.group == some true || o.groupLevel.isSome

/-- The reduced rows: one for each group if there is grouping, else one for all entries. -/
def reduced (o : QueryOptions) (reduction : Reduction) (entries : List Entry) : List Row :=
  if o.isGrouped then
    (o.groups entries).filterMap fun group =>
      group.getLast?.map fun last => ⟨none, o.groupKey last.key, reduction.apply group⟩
  else if entries.isEmpty then []
  else [⟨none, .null, reduction.apply entries⟩]

/-- Whether the sum of a group overflows, or that of all entries if there is no grouping. -/
def overflows (o : QueryOptions) (index : Index) : Bool :=
  (o.reduction index).any fun reduction =>
    if o.isGrouped then (o.groups (o.selected index)).any reduction.overflows
    else reduction.overflows (o.selected index)

def allRows (o : QueryOptions) (index : Index) : List Row :=
  match o.reduction index with
  | some reduction => o.reduced reduction (o.selected index)
  | none => (o.selected index).map fun e => ⟨some e.id, e.key, e.value⟩

def rows (o : QueryOptions) (index : Index) : List Row :=
  let left := (o.allRows index).drop (o.skip.getD 0).toNat
  match o.limit with
  | some limit => left.take limit.toNat
  | none => left

/-- The size of the index if the rows are its entries, and for debugging the names of the view
and how many entries were selected. -/
def metadata (o : QueryOptions) (index : Index) (qualified viewName : String) : Metadata where
  totalRows := if (o.reduction index).isSome then 0 else .ofNat index.entries.length
  debug :=
    if o.debug = some true then
      some (.object [
        ("design_document", .string qualified),
        ("matched_rows", .ofNat (o.selected index).length),
        ("view", .string viewName)])
    else none

/-- The name under which the design document is stored; it is in production if the options do
not tell. -/
def qualified (o : QueryOptions) (designDocument : String) : String :=
  (o.namespace.getD .production).qualify designDocument

/-- What the query means on a store. -/
def evaluate (o : QueryOptions) (store : Store) (designDocument viewName : String) :
    Except ViewError Evaluation :=
  let qualified := o.qualified designDocument
  match store.documents.find? qualified with
  | none =>
      .error (.designDocumentNotFound ("design document " ++ qualified ++ " not found"
        ++ " (context: " ++ (Json.Value.object [("design_document", .string qualified)]).text
        ++ ")"))
  | some views =>
      match Dictionary.find? viewName views with
      | none => .error (.viewNotFound ("view " ++ viewName ++ " not found in " ++ qualified))
      | some index =>
          if o.reduce = some true ∧ index.reduction = none then
            .error (.invalidRequest ("view " ++ viewName ++ " has no reduce function"))
          else .ok ⟨o.rows index, o.metadata index qualified viewName, o.overflows index⟩

end QueryOptions

end DocViews
