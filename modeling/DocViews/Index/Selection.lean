import DocViews.Index.Entry

/-!
Which entries of an index a query is about: those under listed keys, block after
block, or those within a range and under one key.
-/

namespace DocViews

/-- Where a range begins or ends. The document only refines ties with the key. -/
structure Bound where
  key : Json.Value
  docId : Option String

/-- Where an entry lies relative to a bound, in the direction of the scan. -/
def Bound.position (b : Bound) (direction : Direction) (e : Entry) : Ordering :=
  let byKey := collate e.key b.key
  let ascending := match b.docId with
    | some id => byKey.then (compare e.id id)
    | none => byKey
  match direction with
  | .ascending => ascending
  | .descending => ascending.swap

inductive Selection where
  | keys (keys : List Json.Value)
  | range (key : Option Json.Value) (start stop : Option Bound) (inclusiveEnd : Bool)

namespace Selection

/-- Whether an entry has the key, if one is wanted. -/
def admitsKey (key : Option Json.Value) (e : Entry) : Bool :=
  match key with
  | some key => sameKey e.key key
  | none => true

/-- Whether an entry does not lie before the start. -/
def admitsStart (start : Option Bound) (direction : Direction) (e : Entry) : Bool :=
  match start with
  | some bound => bound.position direction e != .lt
  | none => true

/-- Whether an entry does not lie after the end; the end itself belongs to the range
only if it is inclusive. -/
def admitsStop (stop : Option Bound) (inclusiveEnd : Bool) (direction : Direction)
    (e : Entry) : Bool :=
  match stop with
  | some bound =>
      if inclusiveEnd then bound.position direction e != .gt
      else bound.position direction e == .lt
  | none => true

/-- The selected ones of the scanned entries. -/
def select (selection : Selection) (direction : Direction) (scanned : List Entry) :
    List Entry :=
  match selection with
  | .keys listed => listed.flatMap fun key => scanned.filter fun e => sameKey e.key key
  | .range key start stop inclusiveEnd =>
      scanned.filter fun e =>
        admitsKey key e && admitsStart start direction e
          && admitsStop stop inclusiveEnd direction e

end Selection

end DocViews
