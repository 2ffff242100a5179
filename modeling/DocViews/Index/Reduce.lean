import DocViews.Index.Entry

/-!
Reducing selected entries: to one row for all of them, or to one row for each run of
neighbours whose group keys collate equal.
-/

namespace DocViews

/-- Which entries are reduced together. -/
inductive Grouping where
  | all
  /-- Those with equal keys. -/
  | exact
  /-- Those whose keys, if they are arrays, begin with equal items. -/
  | level (length : Nat)
  deriving DecidableEq, Repr

/-- The part of a key that decides the group. -/
def Grouping.key (grouping : Grouping) (key : Json.Value) : Json.Value :=
  match grouping, key with
  | .level length, .array items => .array (items.take length)
  | _, key => key

namespace Reduction

/-- An integer of 64 bits with sign. -/
def signed? : Json.Value → Option Int
  | .number (.integer n) => if n.value < 0x8000000000000000 then some n.value else none
  | _ => none

def double? : Json.Value → Option Double
  | .number n => some n.toDouble
  | _ => none

/-- The sum of the numbers among the values, from left to right. It starts at minus
zero, which is the sum of no numbers. -/
def doubleSum (values : List Json.Value) : Binary64 :=
  (values.filterMap double?).foldl (fun sum x => sum.add (.finite x)) (.finite (.zero true))

/-- Whether an integer has 64 bits with sign. -/
def fits (n : Int) : Bool := -0x8000000000000000 ≤ n && n < 0x8000000000000000

/-- Addition as the machine has it: what does not fit wraps around. -/
def wrappingAdd (a b : Int) : Int := (a + b).bmod 0x10000000000000000

/-- Addition with overflow checks: there is no sum that does not fit. -/
def checkedAdd (a b : Int) : Option Int := if fits (a + b) then some (a + b) else none

/-- The sum of values that are all integers with sign, in a build without overflow checks. Any
other sum is a float. -/
def sumOf (values : List Json.Value) : Json.Value :=
  match values.mapM signed? with
  | some integers => .ofInt (integers.foldl wrappingAdd 0)
  | none => .ofBinary64 (doubleSum values)

/-- Whether the sum of values overflows on the way. A build with overflow checks panics there. -/
def sumOverflows (values : List Json.Value) : Bool :=
  match values.mapM signed? with
  | some integers => (integers.foldlM checkedAdd 0).isNone
  | none => false

def apply (reduction : Reduction) (entries : List Entry) : Json.Value :=
  match reduction with
  | .count => .ofNat entries.length
  | .sum => sumOf (entries.map (·.value))

def overflows (reduction : Reduction) (entries : List Entry) : Bool :=
  match reduction with
  | .count => false
  | .sum => sumOverflows (entries.map (·.value))

/-- A row without a document. -/
def row (key value : Json.Value) : Json.Value := .ofMembers [("key", key), ("value", value)]

/-- The runs of neighbours whose group keys collate equal. -/
def groups (grouping : Grouping) (entries : List Entry) : List (List Entry) :=
  entries.splitBy fun a b => sameKey (grouping.key a.key) (grouping.key b.key)

/-- The row of a group, under the group key of its last entry. -/
def groupRow (reduction : Reduction) (grouping : Grouping) (group : List Entry) :
    Option Json.Value :=
  group.getLast?.map fun last => row (grouping.key last.key) (reduction.apply group)

/-- The rows that selected entries reduce to. No entries make no row. -/
def rows (reduction : Reduction) (grouping : Grouping) (entries : List Entry) :
    List Json.Value :=
  match grouping with
  | .all => if entries.isEmpty then [] else [row .null (reduction.apply entries)]
  | grouping => (groups grouping entries).filterMap (groupRow reduction grouping)

/-- Whether one of the rows overflows. -/
def rowsOverflow (reduction : Reduction) (grouping : Grouping) (entries : List Entry) : Bool :=
  match grouping with
  | .all => reduction.overflows entries
  | grouping => (groups grouping entries).any reduction.overflows

end Reduction

end DocViews
