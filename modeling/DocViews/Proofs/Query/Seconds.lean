import DocViews.Numeric.Literal
import DocViews.Proofs.Numeric.Closest
import DocViews.Query.Timeout
import Mathlib.Algebra.Order.Round

/-!
Fractional seconds as microseconds. The product with a million is rounded as IEEE 754 prescribes
and then to a whole number; what does not fit 64 bits is refused, and nothing else but what is no
number of seconds at all. There is one exception. The limit of 64 bits is compared as a binary64
number, which the largest 64 bit number is not: a product that is rounded to `2 ^ 64` itself is
let through and loses one microsecond. So near to the limit the numbers are further apart than
the seconds are counted, and only one of them has that product.
-/

namespace DocViews

namespace Timeout

open Binary64 Double

variable {x : Double} {m : Nat}

/-- What seconds come to in whole microseconds: the product with a million, rounded to a binary64
number and then to the nearest whole one. A half goes up, which is away from zero where the
seconds are not negative. -/
def Micros (x : Double) (m : Nat) : Prop :=
  ∃ y : Double, RoundsTo (x.value * 1000000) (.finite y) ∧ round y.value = m

/-- Which fractional seconds there are no microseconds for. -/
inductive Excluded : Binary64 → Prop
  | nan : Excluded .nan
  | infinity (negative : Bool) : Excluded (.infinity negative)
  | negative {x : Double} (below : x.value < 0) : Excluded (.finite x)
  | infinite {x : Double} (product : RoundsTo (x.value * 1000000) (.infinity false)) :
      Excluded (.finite x)
  | tooLarge {x : Double} {m : Nat} (micros : Micros x m) (large : limit ≤ m) :
      Excluded (.finite x)

/-- Whether fractional seconds are refused exactly if they are excluded, and otherwise come to
their microseconds. -/
structure Faithful (s : Binary64) : Prop where
  refused : (∃ message, toMicros (.fractional s) = .error (.invalidArgument message)) ↔ Excluded s
  counted : ¬ Excluded s →
    ∃ x m, s = .finite x ∧ Micros x m ∧ toMicros (.fractional s) = .ok m

theorem Micros.unique {n : Nat} (hm : Micros x m) (hn : Micros x n) : m = n := by
  obtain ⟨y, ⟨-, hy⟩, hround⟩ := hm
  obtain ⟨z, ⟨-, hz⟩, hround'⟩ := hn
  have hvalue := hy.unique hz
  rw [hvalue, hround'] at hround
  exact_mod_cast hround.symm

section Limit

/-- The seconds that are rounded to the limit, a little less than the 64 bits hold microseconds. -/
def clamped : Double := ⟨false, 0x42B0C6F7A0B5ED8D, by decide⟩

/-- The largest number below the limit and the smallest one above it. -/
def belowLimit : Double := ⟨false, 0x43EFFFFFFFFFFFFF, by decide⟩

def aboveLimit : Double := ⟨false, 0x43F0000000000001, by decide⟩

theorem clamped_nonneg : 0 ≤ clamped.value := by
  rw [value_of_nonneg rfl]
  exact size_nonneg _

theorem clamped_step : clamped.step = 1 / 256 := by
  rw [step_of_small (k := 8) (by rw [pointShift_eq]; decide)]
  norm_num

theorem clamped_size : clamped.size = 4722366482869645 / 256 := by
  have hdigits : clamped.significand = 4722366482869645 := by decide
  rw [size_eq, clamped_step, hdigits]
  norm_num

theorem belowLimit_value : belowLimit.value = limit - 2048 := by
  have hdigits : belowLimit.significand = 9007199254740991 := by decide
  rw [value_of_nonneg rfl, size_eq, hdigits,
    step_of_large (k := 11) (by rw [pointShift_eq]; decide)]
  norm_num [limit]

theorem aboveLimit_value : aboveLimit.value = limit + 4096 := by
  have hdigits : aboveLimit.significand = 4503599627370497 := by decide
  rw [value_of_nonneg rfl, size_eq, hdigits,
    step_of_large (k := 12) (by rw [pointShift_eq]; decide)]
  norm_num [limit]

/-- A product that comes to the limit is closer to it than to its neighbours. -/
theorem Micros.near_limit (micros : Micros x limit) :
    limit - 1025 ≤ x.value * 1000000 ∧ x.value * 1000000 ≤ limit + 2049 := by
  obtain ⟨y, ⟨-, nearest⟩, hround⟩ := micros
  rw [round_eq, Int.floor_eq_iff] at hround
  obtain ⟨hlow, hhigh⟩ := hround
  push_cast at hlow hhigh
  have hbelow := nearest.add_value_le (z := belowLimit) (by rw [belowLimit_value]; linarith)
  have habove := nearest.le_add_value (z := aboveLimit) (by rw [aboveLimit_value]; linarith)
  rw [belowLimit_value] at hbelow
  rw [aboveLimit_value] at habove
  constructor <;> linarith

/-- Only one number has such a product: those of its neighbours differ by some four thousand. -/
theorem Micros.eq_clamped (micros : Micros x limit) : x = clamped := by
  obtain ⟨hlow, hhigh⟩ := micros.near_limit
  have hlimit : (limit : ℚ) = 18446744073709551616 := by norm_num [limit]
  rw [hlimit] at hlow hhigh
  have hvalue := value_eq_size (x := x) (by linarith)
  rw [hvalue] at hlow hhigh
  rcases Nat.lt_trichotomy x.place clamped.place with smaller | same | larger
  · have hprevious := size_previous smaller
    have hgap : clamped.gap = 2 := by decide
    rw [hgap, clamped_size, clamped_step] at hprevious
    norm_num at hprevious
    linarith
  · have hsign : x.negative = false := by
      by_contra hne
      have hopposite := value_of_negative (eq_true_of_ne_false hne)
      linarith
    obtain ⟨negative, place, fits⟩ := x
    obtain rfl : negative = false := hsign
    obtain rfl : place = clamped.place := same
    rfl
  · have hnext := size_next larger
    rw [clamped_size, clamped_step] at hnext
    linarith

/-- What the product comes to there is the limit itself. -/
theorem clamped_product : ∃ y : Double,
    (Binary64.finite clamped).mul (ofNat 1000000) = .finite y ∧ y.roundAway = limit :=
  ⟨⟨false, 0x43F0000000000000, by decide⟩, by decide +kernel, by decide +kernel⟩

end Limit

section Product

variable {y : Double}

/-- A million needs no rounding. -/
theorem ofNat_million : ∃ y, ofNat 1000000 = .finite y ∧ y.value = 1000000 := by
  have digits : 1000000 * unitsPerOne = 1000000 * 2 ^ pointShift := by rw [unitsPerOne_eq]
  obtain ⟨y, hy, sign, hmagnitude⟩ := ofRatio_exact (n := 1000000) false digits (by decide)
    (Json.word_lt_limit (by decide))
  refine ⟨y, hy, ?_⟩
  rw [value_of_nonneg sign, size, hmagnitude]
  push_cast
  exact mul_div_cancel_right₀ _ (ne_of_gt unitsPerOne_cast_pos)

theorem product_roundsTo {rounded : Binary64}
    (product : (Binary64.finite x).mul (ofNat 1000000) = rounded) :
    RoundsTo (x.value * 1000000) rounded := by
  obtain ⟨y, hy, hvalue⟩ := ofNat_million
  have hrounded := mul_roundsTo x y
  rwa [hvalue, ← hy, product] at hrounded

theorem round_value (nonneg : 0 ≤ y.value) : round y.value = y.roundAway := by
  have hunits : (unitsPerOne : ℚ) ≠ 0 := ne_of_gt unitsPerOne_cast_pos
  have hratio : y.value + 1 / 2 =
      ((2 * y.magnitude + unitsPerOne : Nat) : ℚ) / (2 * unitsPerOne : Nat) := by
    rw [value_eq_size nonneg, size]
    push_cast
    field_simp
  rw [round_eq, hratio, Rat.floor_natCast_div_natCast]
  rfl

/-- The microseconds of seconds that are not negative, told from the product. -/
theorem micros_of_product (nonneg : 0 ≤ x.value)
    (product : (Binary64.finite x).mul (ofNat 1000000) = .finite y) : Micros x y.roundAway := by
  have hrounds := product_roundsTo product
  refine ⟨y, hrounds, round_value ?_⟩
  cases hrounds with
  | finite _ nearest => exact nearest.value_nonneg (mul_nonneg nonneg (by norm_num))

theorem not_excluded (nonneg : 0 ≤ x.value) (micros : Micros x m) (fits : m < limit) :
    ¬ Excluded (.finite x) := by
  intro excluded
  cases excluded with
  | negative below => exact absurd below (not_lt.mpr nonneg)
  | infinite product =>
      obtain ⟨y, ⟨below, -⟩, -⟩ := micros
      cases product with
      | infinity beyond _ => exact absurd below (not_lt.mpr beyond)
  | tooLarge counted large => exact absurd (micros.unique counted ▸ fits) (Nat.not_lt.mpr large)

theorem not_negative (nonneg : 0 ≤ x.value) : ¬ (x.negative = true ∧ ¬ x.isZero = true) := by
  rw [Bool.not_eq_true, ← value_neg_iff]
  exact not_lt.mpr nonneg

theorem toMicros_of_product (nonneg : 0 ≤ x.value)
    (product : (Binary64.finite x).mul (ofNat 1000000) = .finite y) :
    toMicros (.fractional (.finite x)) =
      if limit < y.roundAway then .error (tooLarge (secondsText (.finite x) ++ "s"))
      else .ok (min y.roundAway (limit - 1)) := by
  simp only [toMicros, fractionalMicros, if_neg (not_negative nonneg), product]

theorem toMicros_of_infinite {negative : Bool} (nonneg : 0 ≤ x.value)
    (product : (Binary64.finite x).mul (ofNat 1000000) = .infinity negative) :
    toMicros (.fractional (.finite x)) = .error (tooLarge (secondsText (.finite x) ++ "s")) := by
  simp only [toMicros, fractionalMicros, if_neg (not_negative nonneg), product]

theorem toMicros_of_negative (below : x.value < 0) :
    toMicros (.fractional (.finite x)) = .error (.invalidArgument
      ("timeout must be a finite non-negative number, got " ++ secondsText (.finite x))) := by
  obtain ⟨hnegative, hzero⟩ := value_neg_iff.mp below
  simp [toMicros, fractionalMicros, hnegative, hzero]

end Product

section Faithful

variable {s : Binary64}

theorem Faithful.of_error {message : String} (excluded : Excluded s)
    (h : toMicros (.fractional s) = .error (.invalidArgument message)) : Faithful s :=
  ⟨⟨fun _ => excluded, fun _ => ⟨message, h⟩⟩, fun fits => absurd excluded fits⟩

theorem Faithful.of_ok (nonneg : 0 ≤ x.value) (micros : Micros x m) (fits : m < limit)
    (h : toMicros (.fractional (.finite x)) = .ok m) : Faithful (.finite x) := by
  have kept := not_excluded nonneg micros fits
  refine ⟨⟨?_, fun excluded => absurd excluded kept⟩, fun _ => ⟨x, m, rfl, micros, h⟩⟩
  rintro ⟨message, refused⟩
  rw [h] at refused
  cases refused

/-- Seconds that are not negative are told from their product, which is finite and comes to less
than the limit, to the limit, or to more, or is infinite. -/
theorem faithful_of_nonneg (nonneg : 0 ≤ x.value) (other : x ≠ clamped) :
    Faithful (.finite x) := by
  cases product : (Binary64.finite x).mul (ofNat 1000000) with
  | finite y =>
      have micros := micros_of_product nonneg product
      have answer := toMicros_of_product nonneg product
      rcases Nat.lt_trichotomy y.roundAway limit with fits | equal | large
      · rw [if_neg (by omega), Nat.min_eq_left (by omega)] at answer
        exact .of_ok nonneg micros fits answer
      · exact absurd (equal ▸ micros).eq_clamped other
      · rw [if_pos large] at answer
        exact .of_error (.tooLarge micros (Nat.le_of_lt large)) answer
  | infinity negative =>
      have hrounds := product_roundsTo product
      have hsign : negative = false := by
        cases hrounds with
        | infinity _ sign =>
            rw [sign]
            simpa using nonneg
      exact .of_error (.infinite (hsign ▸ hrounds)) (toMicros_of_infinite nonneg product)
  | nan =>
      have hrounds := product_roundsTo product
      cases hrounds

theorem clamped_micros : Micros clamped limit := by
  obtain ⟨y, product, hround⟩ := clamped_product
  exact hround ▸ micros_of_product clamped_nonneg product

theorem toMicros_clamped : toMicros (.fractional (.finite clamped)) = .ok (limit - 1) := by
  obtain ⟨y, product, hround⟩ := clamped_product
  rw [toMicros_of_product clamped_nonneg product, hround]
  rfl

theorem clamped_unfaithful : ¬ Faithful (.finite clamped) := by
  intro faithful
  obtain ⟨message, refused⟩ :=
    faithful.refused.mpr (.tooLarge clamped_micros (Nat.le_refl limit))
  rw [toMicros_clamped] at refused
  cases refused

/-- Fractional seconds are refused exactly if they are excluded, and otherwise come to their
microseconds, with one exception among all binary64 numbers. -/
theorem faithful_iff (s : Binary64) : Faithful s ↔ s ≠ .finite clamped := by
  constructor
  · rintro faithful rfl
    exact clamped_unfaithful faithful
  · intro other
    cases s with
    | nan => exact .of_error .nan rfl
    | infinity negative => exact .of_error (.infinity negative) rfl
    | finite x =>
        rcases lt_or_ge x.value 0 with below | nonneg
        · exact .of_error (.negative below) (toMicros_of_negative below)
        · exact faithful_of_nonneg nonneg fun h => other (h ▸ rfl)

/-- The exception comes to `2 ^ 64` microseconds, one more than 64 bits hold. It is not refused
but cut down by one. -/
theorem clamped_not_faithful : ofLiteral? "18446744073709.55" = some (.finite clamped) ∧
    Micros clamped 18446744073709551616 ∧
    toMicros (.fractional (.finite clamped)) = .ok 18446744073709551615 ∧
    ¬ Faithful (.finite clamped) :=
  ⟨by decide +kernel, clamped_micros, toMicros_clamped, clamped_unfaithful⟩

end Faithful

end Timeout

end DocViews
