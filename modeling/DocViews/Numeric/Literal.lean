import DocViews.Numeric.Binary64
import DocViews.Numeric.Decimal

/-!
Binary64 numbers from decimal text, correctly rounded.
-/

namespace DocViews

namespace Binary64

/-- Digits with an optional sign, as an integer. -/
def signedDigits? (cs : List Char) : Option Int :=
  let (negative, digits) := match cs with
    | '-' :: rest => (true, rest)
    | '+' :: rest => (false, rest)
    | rest => (false, rest)
  if digits ≠ [] ∧ digits.all Char.isDigit then
    some (if negative then -(digitsValue digits : Int) else digitsValue digits)
  else none

/-- A number without sign: digits, perhaps a point among them, perhaps a power of ten. -/
def unsignedLiteral? (negative : Bool) (cs : List Char) : Option Binary64 :=
  let isPower (c : Char) : Bool := c == 'e' || c == 'E'
  let mantissa := cs.takeWhile (!isPower ·)
  let whole := mantissa.takeWhile (· != '.')
  let fraction := (mantissa.dropWhile (· != '.')).drop 1
  let digits := whole ++ fraction
  let power := match cs.dropWhile (!isPower ·) with
    | [] => some 0
    | _ :: rest => signedDigits? rest
  if digits ≠ [] ∧ digits.all Char.isDigit then
    power.map fun power => ofDecimal negative (digitsValue digits) (power - fraction.length)
  else none

/-- A number in decimal notation, an infinity, or the undefined result. -/
def ofLiteral? (text : String) : Option Binary64 :=
  match text with
  | "NaN" => some .nan
  | "inf" => some (.infinity false)
  | "-inf" => some (.infinity true)
  | text =>
      match text.toList with
      | '-' :: rest => unsignedLiteral? true rest
      | '+' :: rest => unsignedLiteral? false rest
      | rest => unsignedLiteral? false rest

end Binary64

end DocViews
