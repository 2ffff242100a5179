import DocViews.Numeric.Decimal

/-!
Lengths of time, in whole nanoseconds.
-/

namespace DocViews

structure Duration where
  nanoseconds : Nat
  deriving DecidableEq, Repr

namespace Duration

def ofSeconds (n : Nat) : Duration := ⟨n * 1000000000⟩

def ofMilliseconds (n : Nat) : Duration := ⟨n * 1000000⟩

def ofMicroseconds (n : Nat) : Duration := ⟨n * 1000⟩

/-- Whole seconds and the nanoseconds beyond them. -/
def ofParts (seconds nanoseconds : Nat) : Duration := ⟨seconds * 1000000000 + nanoseconds⟩

def seconds (d : Duration) : Nat := d.nanoseconds / 1000000000

/-- The nanoseconds beyond the whole seconds. -/
def subsecond (d : Duration) : Nat := d.nanoseconds % 1000000000

/-- The microseconds that have passed in full. -/
def microseconds (d : Duration) : Nat := d.nanoseconds / 1000

/-- The nine places of the fraction of a second. -/
def fractionDigits (d : Duration) : List Char :=
  let digits := digitChars d.subsecond
  List.replicate (9 - digits.length) '0' ++ digits

/-- Seconds with as many places as are needed. -/
def text (d : Duration) : String :=
  let places := (d.fractionDigits.reverse.dropWhile (· == '0')).reverse
  let fraction := if places.isEmpty then [] else '.' :: places
  String.ofList (digitChars d.seconds ++ fraction ++ ['s'])

end Duration

end DocViews
