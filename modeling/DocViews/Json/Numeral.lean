import DocViews.Json.Cursor

/-!
Numbers in a JSON text. The digits are gathered into a significand of 64 bits; what
does not fit is dropped. A number with a point, a power or dropped digits is a
float: the significand is rounded to binary64 and then multiplied or divided once by
the rounded power of ten, so the result can differ from the nearest float.
-/

namespace DocViews.Json

def isDigit (b : UInt8) : Bool := 0x30 ≤ b && b ≤ 0x39

/-- The digits at the front, as numbers below ten. -/
def digitsOf (input : Bytes) : List Nat × Bytes :=
  ((input.takeWhile isDigit).map (·.toNat - 0x30), input.dropWhile isDigit)

/-- Appends digits to a significand while it fits 64 bits; what is left was dropped. -/
def gather (significand : Nat) : List Nat → Nat × List Nat
  | [] => (significand, [])
  | digit :: rest =>
      if significand * 10 + digit < 0x10000000000000000 then gather (significand * 10 + digit) rest
      else (significand, digit :: rest)

/-- The power of ten written in a numeral. -/
inductive Power where
  | none
  /-- A power of at most 31 bits. -/
  | of (exponent : Int)
  /-- A larger one. `excess` digits stand after the digit that made it too large. -/
  | huge (negative : Bool) (excess : Nat)
  deriving DecidableEq, Repr

structure Numeral where
  negative : Bool
  whole : List Nat
  fraction : List Nat
  power : Power
  deriving DecidableEq, Repr

/-- Divides by `10 ^ 308` as often as told, or until nothing is left. -/
def shrink (x : Binary64) : Nat → Binary64
  | 0 => x
  | times + 1 =>
      match x with
      | .finite y =>
          if y.isZero then x else shrink (x.div (Binary64.ofNat (Nat.pow 10 308))) times
      | _ => x

/-- The significand times a power of ten, with one rounding for each of the two steps. -/
def scaled (significand : Nat) (exponent : Int) : Binary64 :=
  let start := Binary64.ofNat significand
  if 0 ≤ exponent then
    if exponent ≤ 308 then start.mul (Binary64.ofNat (Nat.pow 10 exponent.toNat))
    else if significand = 0 then start
    else .infinity false
  else
    let places := (-exponent).toNat
    let steps := (places - 1) / 308
    (shrink start steps).div (Binary64.ofNat (Nat.pow 10 (places - 308 * steps)))

namespace Numeral

/-- The significand and its power of ten before the written power is added. -/
def decimal (n : Numeral) : Nat × Int :=
  let (significand, droppedWhole) := gather 0 n.whole
  let (significand, droppedFraction) := gather significand n.fraction
  (significand,
    (droppedWhole.length : Int) - (n.fraction.length - droppedFraction.length : Nat))

def isInteger (n : Numeral) : Bool :=
  n.fraction.isEmpty && n.power == .none && (gather 0 n.whole).2.isEmpty

/-- The float a numeral names; none if it is too large. -/
def float? (n : Numeral) : Option Double :=
  let (significand, exponent) := n.decimal
  let unsigned := match n.power with
    | .none => scaled significand exponent
    | .of power => scaled significand (exponent + power)
    | .huge negative _ =>
        if negative || significand == 0 then .finite (.zero false) else .infinity false
  match unsigned with
  | .finite x => some (if n.negative then x.neg else x)
  | _ => none

/-- The number a numeral names. Minus zero and what is below the signed range are floats. -/
def number? (n : Numeral) : Option Number :=
  let significand := (gather 0 n.whole).1
  if n.isInteger then
    if n.negative then
      if significand = 0 then some (.float (.zero true))
      else (Number.ofInt? (-significand)).or (n.float?.map .float)
    else (Number.ofInt? significand).or (n.float?.map .float)
  else n.float?.map .float

end Numeral

/-- How many bytes a numeral that is too large ends before its own end. -/
def Numeral.excess (n : Numeral) : Nat :=
  match n.power with
  | .huge _ excess => excess
  | _ => 0

/-- The power with these digits after `start`. -/
def powerOf (negative : Bool) (start : Nat) : List Nat → Power
  | [] => .of (if negative then -start else start)
  | digit :: rest =>
      if start * 10 + digit < 0x80000000 then powerOf negative (start * 10 + digit) rest
      else .huge negative rest.length

def powerRest (input : Bytes) : Except Failure (Power × Bytes) :=
  let (negative, unsigned) := match input with
    | 0x2b :: rest => (false, rest)
    | 0x2d :: rest => (true, rest)
    | rest => (false, rest)
  match unsigned with
  | [] => failHere .endInValue []
  | b :: rest =>
      if isDigit b then
        let (digits, rest) := digitsOf rest
        .ok (powerOf negative (b.toNat - 0x30) digits, rest)
      else failHere .invalidNumber rest

def power : Bytes → Except Failure (Power × Bytes)
  | 0x65 :: rest => powerRest rest
  | 0x45 :: rest => powerRest rest
  | rest => .ok (.none, rest)

/-- The places after the point, if there is one; a point is followed by a digit. -/
def fraction : Bytes → Except Failure (List Nat × Bytes)
  | 0x2e :: rest =>
      match digitsOf rest with
      | ([], []) => failNext .endInValue []
      | ([], rest) => failNext .invalidNumber rest
      | digits => .ok digits
  | rest => .ok ([], rest)

/-- The digits before the point: one zero, or digits of which the first is none. -/
def whole : Bytes → Except Failure (List Nat × Bytes)
  | [] => failHere .endInValue []
  | b :: rest =>
      if b = 0x30 then
        match digitsOf rest with
        | ([], rest) => .ok ([0], rest)
        | _ => failNext .invalidNumber rest
      else if isDigit b then
        let (digits, rest) := digitsOf rest
        .ok ((b.toNat - 0x30) :: digits, rest)
      else failHere .invalidNumber rest

def unsignedNumeral (negative : Bool) (input : Bytes) : Except Failure (Numeral × Bytes) := do
  let (whole, rest) ← whole input
  let (fraction, rest) ← fraction rest
  let (power, rest) ← power rest
  pure (⟨negative, whole, fraction, power⟩, rest)

def numeral : Bytes → Except Failure (Numeral × Bytes)
  | 0x2d :: rest => unsignedNumeral true rest
  | rest => unsignedNumeral false rest

/-- A number that is too large is refused where its text ends. -/
def number (input : Bytes) : Except Failure (Number × Bytes) := do
  let (numeral, rest) ← numeral input
  match numeral.number? with
  | some n => pure (n, rest)
  | none => .error ⟨.numberOutOfRange, rest.length + numeral.excess⟩

end DocViews.Json
