import DocViews.Dictionary
import DocViews.Numeric.Binary64

/-!
JSON values. A number is an integer of one of the two 64-bit ranges or a finite
binary64 number; the members of an object are the pairs of a dictionary.
-/

namespace DocViews.Json

/-- An integer that fits 64 bits with or without a sign. -/
structure Integer where
  value : Int
  least : -0x8000000000000000 ≤ value
  greatest : value < 0x10000000000000000
  deriving DecidableEq, Repr

inductive Number where
  | integer (n : Integer)
  | float (x : Double)
  deriving DecidableEq, Repr

inductive Value where
  | null
  | bool (b : Bool)
  | number (n : Number)
  | string (s : String)
  | array (items : List Value)
  /-- The pairs of a dictionary. That they are in order cannot be said in the type that is being
  defined; `ofMembers` and whatever is read keep them so. -/
  | object (members : List (String × Value))
  deriving Repr, Inhabited

namespace Number

/-- An integer outside the 64-bit ranges is no integer number. -/
def ofInt? (n : Int) : Option Number :=
  if h : -0x8000000000000000 ≤ n ∧ n < 0x10000000000000000 then some (.integer ⟨n, h.1, h.2⟩)
  else none

def ofUInt64 (n : UInt64) : Number :=
  .integer ⟨n.toNat, by omega, by have := n.toNat_lt; omega⟩

/-- The binary64 number nearest to a number. No integer of 64 bits is too large for one. -/
def toDouble : Number → Double
  | .integer n => (Binary64.ofInt n.value).finite?.getD (.zero false)
  | .float x => x

end Number

namespace Value

/-- A binary64 number as a value; there is none but null for an infinite or undefined one. -/
def ofBinary64 : Binary64 → Value
  | .finite x => .number (.float x)
  | _ => .null

/-- An integer as a value, rounded where it does not fit 64 bits. -/
def ofInt (n : Int) : Value :=
  match Number.ofInt? n with
  | some n => .number n
  | none => ofBinary64 (Binary64.ofInt n)

def ofNat (n : Nat) : Value := ofInt n

def ofUInt64 (n : UInt64) : Value := .number (.ofUInt64 n)

/-- An object with these members, whose order does not matter. -/
def ofMembers (members : List (String × Value)) : Value :=
  .object (Dictionary.ofPairs members).pairs

mutual

/-- Whether two values are equal, members in order. -/
def same : Value → Value → Bool
  | .null, .null => true
  | .bool a, .bool b => a == b
  | .number a, .number b => a == b
  | .string a, .string b => a == b
  | .array xs, .array ys => sameItems xs ys
  | .object xs, .object ys => sameMembers xs ys
  | _, _ => false

def sameItems : List Value → List Value → Bool
  | [], [] => true
  | x :: xs, y :: ys => same x y && sameItems xs ys
  | _, _ => false

def sameMembers : List (String × Value) → List (String × Value) → Bool
  | [], [] => true
  | (k, x) :: xs, (l, y) :: ys => k == l && same x y && sameMembers xs ys
  | _, _ => false

end

instance : BEq Value := ⟨same⟩

end Value

end DocViews.Json
