import DocViews.Json.Value

/-!
The order of view keys. Keys are ordered by kind first: null, false, true, numbers,
strings, arrays, objects. Numbers compare as binary64 numbers, strings by code point,
arrays and objects member by member and then by length.
-/

namespace DocViews

open Json (Value)

/-- The place of the kind of a value among all kinds. -/
def Json.Value.rank : Value → Nat
  | .null => 0
  | .bool false => 1
  | .bool true => 2
  | .number _ => 3
  | .string _ => 4
  | .array _ => 5
  | .object _ => 6

mutual

/-- Compares two view keys. -/
def collate (a b : Value) : Ordering :=
  match a, b with
  | .number x, .number y => compare x.toDouble.units y.toDouble.units
  | .string s, .string t => compare s t
  | .array xs, .array ys => collateItems xs ys
  | .object xs, .object ys => collateMembers xs ys
  | a, b => compare a.rank b.rank

/-- Item by item; of two lists that agree as far as both go, the shorter comes first. -/
def collateItems : List Value → List Value → Ordering
  | [], [] => .eq
  | [], _ :: _ => .lt
  | _ :: _, [] => .gt
  | x :: xs, y :: ys => (collate x y).then (collateItems xs ys)

/-- Member by member, keys before values; then the shorter comes first. -/
def collateMembers : List (String × Value) → List (String × Value) → Ordering
  | [], [] => .eq
  | [], _ :: _ => .lt
  | _ :: _, [] => .gt
  | (k, x) :: xs, (l, y) :: ys =>
      ((compare k l).then (collate x y)).then (collateMembers xs ys)

end

/-- Whether the order does not tell two keys apart. -/
def sameKey (a b : Value) : Bool := collate a b == .eq

end DocViews
