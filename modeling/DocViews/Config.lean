import DocViews.Duration
import DocViews.Text.Blank
import DocViews.Text.Utf8

/-!
What a bucket is configured with: the timeout of queries that set none, which the
environment can give in milliseconds.
-/

namespace DocViews

structure Config where
  viewTimeout : Duration := .ofSeconds 75
  deriving DecidableEq, Repr

namespace Config

/-- An optional plus sign and at least one ASCII digit, for a number of 64 bits. -/
def natural? (cs : List Char) : Option Nat :=
  let digits := match cs with
    | '+' :: rest => rest
    | cs => cs
  if digits ≠ [] ∧ digits.all Char.isDigit then
    if digitsValue digits < 0x10000000000000000 then some (digitsValue digits) else none
  else none

/-- The milliseconds that an environment value gives, blanks at its ends not counted. -/
def milliseconds? (value : Bytes) : Option Nat := do
  let cs ← Utf8.decode? value
  natural? (Text.trimBlanks cs)

/-- The configuration for an environment value. What cannot be read counts as absent. -/
def ofEnvironment (value : Option Bytes) : Config :=
  match value.bind milliseconds? with
  | some n => ⟨.ofMilliseconds n⟩
  | none => {}

end Config

end DocViews
