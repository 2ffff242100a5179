import DocViews.Index.Reduce
import DocViews.Index.Selection
import DocViews.Query.Encoded
import DocViews.ViewError

/-!
What an encoded query asks of an index, and the answer: scan, selection, reduction and
window, in this order. The counts that go with the rows are taken before the window.
-/

namespace DocViews

/-- Which rows are left of all rows. -/
structure Window where
  skip : Nat
  limit : Option Nat
  deriving DecidableEq, Repr

def Window.apply {α : Type} (window : Window) (rows : List α) : List α :=
  match window.limit with
  | some limit => (rows.drop window.skip).take limit
  | none => rows.drop window.skip

structure Plan where
  direction : Direction
  selection : Selection
  reduction : Option Reduction
  grouping : Grouping
  window : Window

structure Answer where
  rows : List Json.Value
  /-- The number of entries in the index, unless the rows are reduced. -/
  totalRows : Option Nat
  /-- The number of entries selected. -/
  matched : Nat
  /-- Whether one of the rows overflows, also one that the window leaves out. -/
  overflows : Bool

namespace Plan

/-- The server refuses what a query asks. -/
def refuse {α : Type} (message : String) : Except Marker α := .error ⟨3, message, none⟩

/-- A key that a query gives as JSON text. -/
def key? (q : EncodedQuery) (field : QueryField) : Except Marker (Option Json.Value) :=
  match q.string? field with
  | none => .ok none
  | some text =>
      match Json.readString text with
      | .ok key => .ok (some key)
      | .error e => refuse ("invalid " ++ field.name ++ ": " ++ e.message)

/-- One of the keys that a query lists. -/
def listedKey (text : String) : Except Marker Json.Value :=
  match Json.readString text with
  | .ok key => .ok key
  | .error e => refuse ("invalid keys entry: " ++ e.message)

/-- Listed keys go before everything else that would select. -/
def selectionOf (q : EncodedQuery) : Except Marker Selection :=
  match q.strings? QueryField.keys with
  | some texts => do pure (.keys (← texts.mapM listedKey))
  | none => do
      let key ← key? q .key
      let start ← key? q .startKey
      let stop ← key? q .endKey
      pure (.range key
        (start.map (⟨·, q.string? QueryField.startKeyDocId⟩))
        (stop.map (⟨·, q.string? QueryField.endKeyDocId⟩))
        ((q.bool? QueryField.inclusiveEnd).getD true))

/-- Grouping by the whole key goes before a level. -/
def groupingOf (q : EncodedQuery) : Grouping :=
  match q.bool? QueryField.group, q.natural? QueryField.groupLevel with
  | some true, _ => .exact
  | _, some level => .level level.toNat
  | _, none => .all

/-- A view that has a reduction is reduced unless the query says no. -/
def reductionOf (q : EncodedQuery) (viewName : String) (reduction : Option Reduction) :
    Except Marker (Option Reduction) :=
  match reduction, q.bool? QueryField.reduce with
  | some reduction, none => .ok (some reduction)
  | some reduction, some true => .ok (some reduction)
  | some _, some false => .ok none
  | none, some true => refuse ("view " ++ viewName ++ " has no reduce function")
  | none, _ => .ok none

def windowOf (q : EncodedQuery) : Window where
  skip := ((q.natural? QueryField.skip).getD 0).toNat
  limit := (q.natural? QueryField.limit).map (·.toNat)

/-- Any other order than the word for descending is ascending. -/
def directionOf (q : EncodedQuery) : Direction :=
  if q.string? QueryField.order = some (Vocabulary.token Direction.descending) then .descending
  else .ascending

/-- The plan for a query on a view of this name and reduction. -/
def ofQuery (q : EncodedQuery) (viewName : String) (reduction : Option Reduction) :
    Except Marker Plan := do
  let selection ← selectionOf q
  let reduction ← reductionOf q viewName reduction
  pure {
    direction := directionOf q
    selection, reduction
    grouping := groupingOf q
    window := windowOf q }

def selected (plan : Plan) (index : Index) : List Entry :=
  plan.selection.select plan.direction (index.scan plan.direction)

/-- All rows of a plan, before the window. -/
def rows (plan : Plan) (index : Index) : List Json.Value :=
  match plan.reduction with
  | some reduction => reduction.rows plan.grouping (plan.selected index)
  | none => (plan.selected index).map (·.toRow)

def overflows (plan : Plan) (index : Index) : Bool :=
  match plan.reduction with
  | some reduction => reduction.rowsOverflow plan.grouping (plan.selected index)
  | none => false

def answer (plan : Plan) (index : Index) : Answer where
  rows := plan.window.apply (plan.rows index)
  totalRows := if plan.reduction.isNone then some index.entries.length else none
  matched := (plan.selected index).length
  overflows := plan.overflows index

end Plan

end DocViews
