/-!
Binary64 numbers in exact integer arithmetic. A finite number is a sign and the
place of its absolute value in the ascending list of the nonnegative finite
numbers; its value is a whole number of units of `2 ^ -1074`. Every operation
takes the exact result, a ratio of two naturals, and rounds it once by
`Binary64.ofRatio`.
-/

namespace DocViews

/-- How many binary64 numbers there are from one power of two to the next. -/
def Double.binade : Nat := 0x10000000000000

/-- How many finite binary64 numbers are not negative, the zero counted once. -/
def Double.places : Nat := 2047 * Double.binade

/-- A finite binary64 number. The place is `0` for zero and one more for each next
larger absolute value, which makes it the bit pattern without the sign. -/
structure Double where
  negative : Bool
  place : Nat
  place_lt : place < Double.places
  deriving DecidableEq, Repr

namespace Double

/-- How often the distance to the next number has doubled since the smallest ones. -/
def shift (x : Double) : Nat := x.place / binade - 1

/-- The digits of the number, read as an integer. -/
def significand (x : Double) : Nat :=
  if x.place < binade then x.place else x.place % binade + binade

/-- The absolute value in units of `2 ^ -1074`. -/
def magnitude (x : Double) : Nat := x.significand * Nat.pow 2 x.shift

/-- The value in units of `2 ^ -1074`. Both zeros have the value zero. -/
def units (x : Double) : Int := if x.negative then -(x.magnitude : Int) else x.magnitude

/-- One, in units of `2 ^ -1074`. -/
def unitsPerOne : Nat := Nat.pow 2 1074

def isZero (x : Double) : Bool := x.place == 0

def zero (negative : Bool) : Double := ⟨negative, 0, by decide⟩

def neg (x : Double) : Double := { x with negative := !x.negative }

/-- The nearest whole number to the absolute value; a half goes away from zero. -/
def roundAway (x : Double) : Nat := (2 * x.magnitude + unitsPerOne) / (2 * unitsPerOne)

end Double

/-- A binary64 number, the infinities and the one undefined result included. -/
inductive Binary64 where
  | finite (x : Double)
  | infinity (negative : Bool)
  | nan
  deriving DecidableEq, Repr

/-- The nearest whole number to a ratio; a half goes to the even neighbour. -/
def nearestEven (numerator denominator : Nat) : Nat :=
  let quotient := numerator / denominator
  let twice := 2 * (numerator % denominator)
  if twice < denominator then quotient
  else if denominator < twice then quotient + 1
  else quotient + quotient % 2

namespace Binary64

/-- The number itself, if it is finite. -/
def finite? : Binary64 → Option Double
  | .finite x => some x
  | _ => none

/-- The number at a place; past the last one stands infinity. -/
def ofPlace (negative : Bool) (place : Nat) : Binary64 :=
  if h : place < Double.places then .finite ⟨negative, place, h⟩ else .infinity negative

/-- The number nearest to `± numerator / denominator`, of two equally near ones the
even one. The digits kept are 53, fewer for ratios below `2 ^ -1022`; where they
round up to `2 ^ 53`, the sum for the place carries into the next doubling. -/
def ofRatio (negative : Bool) (numerator denominator : Nat) : Binary64 :=
  let scaled := numerator * Double.unitsPerOne
  let shift := Nat.log2 (scaled / denominator) - 52
  ofPlace negative (shift * Double.binade + nearestEven scaled (denominator * Nat.pow 2 shift))

def ofNat (n : Nat) : Binary64 := ofRatio false n 1

def ofInt (n : Int) : Binary64 := ofRatio (n < 0) n.natAbs 1

/-- The value `± digits * 10 ^ exponent`, correctly rounded. No power is taken where the
exponent settles the result: `10 ^ 309` is too large, and since a tenth is less than an
eighth, the value is below half of `2 ^ -1074` once three binary places for every
decimal one outweigh the digits. -/
def ofDecimal (negative : Bool) (digits : Nat) (exponent : Int) : Binary64 :=
  if digits = 0 then .finite (.zero negative)
  else if 309 ≤ exponent then .infinity negative
  else if Nat.log2 digits + 1076 ≤ 3 * (-exponent) then .finite (.zero negative)
  else ofRatio negative (digits * Nat.pow 10 exponent.toNat) (Nat.pow 10 (-exponent).toNat)

/-- The sum of two zeros is negative only if both are; any other exact zero is positive. -/
def add : Binary64 → Binary64 → Binary64
  | .finite x, .finite y =>
      let sum := x.units + y.units
      if sum = 0 then .finite (.zero (x.negative && y.negative))
      else ofRatio (sum < 0) sum.natAbs Double.unitsPerOne
  | .infinity s, .infinity t => if s = t then .infinity s else .nan
  | .infinity s, .finite _ => .infinity s
  | .finite _, .infinity s => .infinity s
  | .nan, _ => .nan
  | _, .nan => .nan

def mul : Binary64 → Binary64 → Binary64
  | .finite x, .finite y =>
      ofRatio (x.negative != y.negative) (x.magnitude * y.magnitude)
        (Double.unitsPerOne * Double.unitsPerOne)
  | .infinity s, .infinity t => .infinity (s != t)
  | .infinity s, .finite x => if x.isZero then .nan else .infinity (s != x.negative)
  | .finite x, .infinity s => if x.isZero then .nan else .infinity (x.negative != s)
  | .nan, _ => .nan
  | _, .nan => .nan

def div : Binary64 → Binary64 → Binary64
  | .finite x, .finite y =>
      if y.isZero then
        if x.isZero then .nan else .infinity (x.negative != y.negative)
      else ofRatio (x.negative != y.negative) x.magnitude y.magnitude
  | .infinity s, .finite y => .infinity (s != y.negative)
  | .finite x, .infinity s => .finite (.zero (x.negative != s))
  | .infinity _, .infinity _ => .nan
  | .nan, _ => .nan
  | _, .nan => .nan

end Binary64

end DocViews
