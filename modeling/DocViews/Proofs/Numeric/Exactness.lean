import DocViews.Json.Value
import DocViews.Proofs.Numeric.Rounding

/-!
What rounding leaves as it is. An integer that has the value of a binary64 number is rounded to
that value; these are the integers for which 53 binary digits are enough, so all of them up to
`2 ^ 53`.
-/

namespace DocViews

theorem Double.natAbs_units (x : Double) : x.units.natAbs = x.magnitude := by
  unfold units
  split <;> simp

namespace Binary64

open Double

variable {n scaled shift m : Nat}

/-- Of a number with few enough digits, the steps are not larger than the last digit, so there
is nothing to round. -/
theorem Steps.exact (steps : Steps scaled 1 shift m) {s k : Nat} (digits : scaled = s * 2 ^ k)
    (few : s < 2 * binade) : m * 2 ^ shift = scaled := by
  have hbinade : 0 < binade := by decide
  have hle : shift ≤ k := by
    rcases Nat.eq_zero_or_pos shift with rfl | hpos
    · omega
    · have hnormal := steps.normal hpos
      rw [Nat.one_mul] at hnormal
      have hlt : binade * 2 ^ shift < binade * 2 ^ (k + 1) := by
        calc binade * 2 ^ shift = 2 ^ shift * binade := Nat.mul_comm _ _
          _ ≤ scaled := hnormal
          _ = s * 2 ^ k := digits
          _ < 2 * binade * 2 ^ k := Nat.mul_lt_mul_of_pos_right few (Nat.pow_pos (by decide))
          _ = binade * 2 ^ (k + 1) := by ring
      have hpow : 2 ^ shift < 2 ^ (k + 1) := Nat.lt_of_mul_lt_mul_left hlt
      have hshift := (Nat.pow_lt_pow_iff_right (by decide)).mp hpow
      omega
  obtain ⟨q, hq⟩ : 2 ^ shift ∣ scaled := by
    rw [digits]
    exact Nat.dvd_trans (Nat.pow_dvd_pow 2 hle) (Nat.dvd_mul_left _ _)
  have hstep : 0 < 2 ^ shift := Nat.pow_pos (by decide)
  have hnext := steps.next
  have hnear := steps.near
  rw [Nat.one_mul, hq] at hnext hnear
  generalize 2 ^ shift = step at *
  have hle : q ≤ m := by
    have hlt : step * q < step * (m + 1) := by linarith
    have := Nat.lt_of_mul_lt_mul_left hlt
    omega
  have hge : m ≤ q := by
    have hlt : step * (2 * m) < step * (2 * q + 2) := by linarith
    have := Nat.lt_of_mul_lt_mul_left hlt
    omega
  rw [hq, Nat.le_antisymm hge hle]
  exact Nat.mul_comm _ _

theorem ofRatio_exact (negative : Bool) {s k : Nat} (digits : n * unitsPerOne = s * 2 ^ k)
    (few : s < 2 * binade) (below : n < limit) :
    ∃ x, ofRatio negative n 1 = .finite x ∧ x.negative = negative ∧
      x.magnitude = n * unitsPerOne := by
  have hbelow : n * unitsPerOne < overflow * 1 := by
    rw [Nat.mul_one, overflow_eq]
    exact Nat.mul_lt_mul_of_pos_right below unitsPerOne_pos
  obtain ⟨shift, m, steps, hplace⟩ := ofRatio_steps negative n Nat.one_pos
  refine ⟨_, hplace.trans (ofPlace_finite (steps.lt_places hbelow)), rfl, ?_⟩
  rw [magnitude_of_place rfl steps.most steps.least]
  exact steps.exact digits few

end Binary64

namespace Json

open Double

theorem Integer.natAbs_lt_limit (n : Integer) : n.value.natAbs < limit := by
  apply word_lt_limit
  have hleast := n.least
  have hgreatest := n.greatest
  omega

namespace Number

/-- The value of a number in units of `2 ^ -1074`, which every number is a multiple of. -/
def units : Number → Int
  | .integer n => n.value * unitsPerOne
  | .float x => x.units

/-- Whether a number has the value of a binary64 number. -/
def IsDouble (x : Number) : Prop := ∃ d : Double, d.units = x.units

theorem toDouble_units_of_digits {n : Integer} {s k : Nat} (few : s < 2 * binade)
    (digits : n.value.natAbs * unitsPerOne = s * 2 ^ k) :
    (Number.integer n).toDouble.units = (Number.integer n).units := by
  obtain ⟨x, hx, hnegative, hmagnitude⟩ :=
    Binary64.ofRatio_exact (decide (n.value < 0)) digits few n.natAbs_lt_limit
  have hrounded : (Number.integer n).toDouble = x := by
    have hint : Binary64.ofInt n.value = .finite x := hx
    rw [toDouble, hint]
    rfl
  rw [hrounded, units, Double.units, hnegative, hmagnitude, Nat.cast_mul]
  simp only [decide_eq_true_eq]
  split
  · next hneg =>
      have habs : (n.value.natAbs : Int) = -n.value := by omega
      rw [habs]
      ring
  · next hpos =>
      have habs : (n.value.natAbs : Int) = n.value := by omega
      rw [habs]

/-- Such a number is not changed by becoming a float. -/
theorem IsDouble.toDouble_units {x : Number} (exact : x.IsDouble) : x.toDouble.units = x.units := by
  cases x with
  | float d => rfl
  | integer n =>
      obtain ⟨d, hd⟩ := exact
      apply toDouble_units_of_digits d.significand_lt
      calc n.value.natAbs * unitsPerOne = d.units.natAbs := by
            rw [hd, units, Int.natAbs_mul, Int.natAbs_natCast]
        _ = d.magnitude := natAbs_units d

/-- An integer has the value of a binary64 number if 53 binary digits are enough for it. -/
theorem isDouble_integer_iff {n : Integer} :
    (Number.integer n).IsDouble ↔ ∃ s k, s < 2 ^ 53 ∧ n.value.natAbs = s * 2 ^ k := by
  constructor
  · rintro ⟨d, hd⟩
    have hfew := d.significand_lt
    have hdigits : n.value.natAbs * 2 ^ pointShift = d.significand * 2 ^ d.shift := by
      calc n.value.natAbs * 2 ^ pointShift = d.units.natAbs := by
            rw [hd, units, Int.natAbs_mul, Int.natAbs_natCast, unitsPerOne_eq]
        _ = d.magnitude := natAbs_units d
    rcases Nat.le_total pointShift d.shift with hle | hle
    · obtain ⟨k, hk⟩ := Nat.exists_eq_add_of_le hle
      refine ⟨d.significand, k, hfew, ?_⟩
      rw [hk, Nat.pow_add, Nat.mul_left_comm, Nat.mul_comm] at hdigits
      exact Nat.mul_left_cancel (Nat.pow_pos (by decide)) hdigits
    · -- The digits go on behind the point, so there are more of them than the integer has.
      obtain ⟨k, hk⟩ := Nat.exists_eq_add_of_le hle
      refine ⟨n.value.natAbs, 0, ?_, by simp⟩
      rw [hk, Nat.pow_add, Nat.mul_left_comm, Nat.mul_comm d.significand] at hdigits
      have hmul := Nat.mul_left_cancel (Nat.pow_pos (by decide)) hdigits
      have hpos : 0 < 2 ^ k := Nat.pow_pos (by decide)
      calc n.value.natAbs ≤ n.value.natAbs * 2 ^ k := Nat.le_mul_of_pos_right _ hpos
        _ = d.significand := hmul
        _ < 2 ^ 53 := hfew
  · rintro ⟨s, k, few, digits⟩
    refine ⟨_, toDouble_units_of_digits (s := s) (k := k + pointShift) few ?_⟩
    rw [digits, unitsPerOne_eq, Nat.pow_add, Nat.mul_assoc]

end Number

end Json

end DocViews
