import DocViews.Numeric.Binary64
import DocViews.Numeric.Decimal

/-!
The fewest decimal digits that still name a binary64 number. A decimal names the
number if it lies in the interval of reals that round to it; the ends belong to
the interval exactly if the last binary digit is even. On each decimal grid only
the two neighbours of the value have to be tested, since a grid with any point in
the interval has one of those two in it.
-/

namespace DocViews

/-- Which neighbour is taken when both are equally near. -/
inductive Tie where
  | even
  | up
  deriving DecidableEq, Repr

namespace Double

/-- How many decimal digits a natural number has. -/
def digitCount (n : Nat) : Nat := (digitChars n).length

/-- The power of ten of the first decimal digit of a value that is not zero. -/
def decade (x : Double) : Int :=
  if unitsPerOne ≤ x.magnitude then (digitCount (x.magnitude / unitsPerOne) : Int) - 1
  else -(digitCount ((unitsPerOne - 1) / x.magnitude) : Int)

/-- The decimal with this many digits that names the number, if there is one: the
nearer one of the value's two neighbours on the grid. Values and bounds are
compared as naturals, in quarters of the binary step and scaled by `2 ^ 1076`. -/
def named? (tie : Tie) (x : Double) (count : Nat) : Option Decimal :=
  let power := x.decade - count + 1
  let binary := Nat.pow 2 x.shift * Nat.pow 10 (-power).toNat
  let grid := 4 * unitsPerOne * Nat.pow 10 power.toNat
  let value := 4 * x.significand * binary
  let low := (4 * x.significand - if x.significand = binade ∧ 0 < x.shift then 1 else 2) * binary
  let high := (4 * x.significand + 2) * binary
  let inside (n : Nat) : Bool :=
    if x.significand % 2 = 0 then low ≤ n * grid && n * grid ≤ high
    else low < n * grid && n * grid < high
  let below := value / grid
  let down := value - below * grid
  let up := (below + 1) * grid - value
  let lower : Decimal := ⟨below, power⟩
  let upper : Decimal :=
    if below + 1 = Nat.pow 10 count then ⟨1, power + count⟩ else ⟨below + 1, power⟩
  match inside below, inside (below + 1) with
  | true, true =>
      if down < up then some lower
      else if up < down then some upper
      else if tie = .even ∧ below % 2 = 0 then some lower
      else some upper
  | true, false => some lower
  | false, true => some upper
  | false, false => none

/-- The decimal of fewest digits that names the absolute value, the nearest one among
those; seventeen digits are always enough. -/
def shortest (tie : Tie) (x : Double) : Decimal :=
  if x.isZero then ⟨0, 0⟩
  else ((List.range 17).findSome? fun n => x.named? tie (n + 1)).getD ⟨0, 0⟩

end Double

end DocViews
