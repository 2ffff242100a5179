/-!
Decimal numerals and their two layouts: positional, and with a power of ten.
-/

namespace DocViews

/-- The number `digits * 10 ^ exponent`. -/
structure Decimal where
  digits : Nat
  exponent : Int
  deriving DecidableEq, Repr

def digitChars (n : Nat) : List Char := Nat.toDigits 10 n

/-- An integer with a minus sign where it is negative. -/
def integerChars : Int → List Char
  | .ofNat n => digitChars n
  | .negSucc n => '-' :: digitChars (n + 1)

def digitsValue (digits : List Char) : Nat :=
  digits.foldl (fun n c => n * 10 + (c.toNat - '0'.toNat)) 0

namespace Decimal

/-- How the places after the point are written when all of them are zero. -/
inductive Fraction where
  | omitted
  | oneZero
  deriving DecidableEq, Repr

def Fraction.chars : Fraction → List Char
  | .omitted => []
  | .oneZero => ['.', '0']

/-- The power of ten of the first digit. -/
def leading (d : Decimal) : Int := d.exponent + (digitChars d.digits).length - 1

/-- All places written out, without a power of ten. -/
def positional (whole : Fraction) (d : Decimal) : List Char :=
  let digits := digitChars d.digits
  if 0 ≤ d.exponent then
    digits ++ List.replicate d.exponent.toNat '0' ++ whole.chars
  else
    let places := (-d.exponent).toNat
    if places < digits.length then
      digits.take (digits.length - places) ++ '.' :: digits.drop (digits.length - places)
    else
      '0' :: '.' :: List.replicate (places - digits.length) '0' ++ digits

/-- One digit before the point and a signed power of ten after the rest; a single
digit has no point. -/
def scientific (d : Decimal) : List Char :=
  let mantissa := match digitChars d.digits with
    | [] => []
    | [digit] => [digit]
    | digit :: rest => digit :: '.' :: rest
  let power := d.leading
  mantissa ++ 'e' :: (if power < 0 then '-' else '+') :: digitChars power.natAbs

end Decimal

end DocViews
