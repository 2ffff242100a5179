import DocViews.Duration
import DocViews.Numeric.Shortest
import DocViews.ViewError

/-!
The timeout of a query, given as a duration, as whole seconds or as fractional
seconds, and normalised to whole microseconds of 64 bits. A duration loses its last
three places; fractional seconds are multiplied by a million as binary64 numbers and
then rounded, a half going up.
-/

namespace DocViews

inductive Timeout where
  | duration (d : Duration)
  | seconds (n : Int)
  | fractional (seconds : Binary64)
  deriving DecidableEq, Repr

namespace Timeout

def ofInt32 (n : Int32) : Timeout := .seconds n.toInt

def ofInt64 (n : Int64) : Timeout := .seconds n.toInt

def ofUInt32 (n : UInt32) : Timeout := .seconds n.toNat

/-- Seconds without sign may be more than the signed form holds. -/
def ofUInt64 (n : UInt64) : Timeout := .duration (.ofSeconds n.toNat)

/-- Seconds as messages show them: the fewest digits that name the number, a tie going
up, and never a power of ten. -/
def secondsText : Binary64 → String
  | .finite x =>
      let unsigned := (x.shortest .up).positional .omitted
      String.ofList (if x.negative then '-' :: unsigned else unsigned)
  | .infinity negative => if negative then "-inf" else "inf"
  | .nan => "NaN"

def tooLarge (text : String) : ViewError :=
  .invalidArgument ("timeout " ++ text ++ " is too large")

/-- How many microseconds fit 64 bits. -/
def limit : Nat := 0x10000000000000000

/-- Fractional seconds in microseconds. What rounds to the limit itself is let through
and counts as one less. -/
def fractionalMicros (seconds : Binary64) : Except ViewError Nat :=
  match seconds with
  | .finite x =>
      if x.negative ∧ ¬x.isZero then
        .error (.invalidArgument
          ("timeout must be a finite non-negative number, got " ++ secondsText seconds))
      else
        match seconds.mul (Binary64.ofNat 1000000) with
        | .finite micros =>
            if limit < micros.roundAway then .error (tooLarge (secondsText seconds ++ "s"))
            else .ok (min micros.roundAway (limit - 1))
        | _ => .error (tooLarge (secondsText seconds ++ "s"))
  | _ =>
      .error (.invalidArgument
        ("timeout must be a finite non-negative number, got " ++ secondsText seconds))

/-- The timeout in whole microseconds. -/
def toMicros : Timeout → Except ViewError Nat
  | .duration d =>
      if d.microseconds < limit then .ok d.microseconds else .error (tooLarge d.text)
  | .seconds n =>
      let text := String.ofList (integerChars n)
      if n < 0 then
        .error (.invalidArgument ("timeout must be non-negative, got " ++ text))
      else if n.toNat * 1000000 < limit then .ok (n.toNat * 1000000)
      else .error (tooLarge (text ++ "s"))
  | .fractional x => fractionalMicros x

end Timeout

end DocViews
