import DocViews.Json.Numeral
import Mathlib.Algebra.Order.Ring.Nat
import Mathlib.Tactic.Linarith
import Mathlib.Tactic.Ring

/-!
How far rounding goes. A rounded ratio is off by half a step of its own size at most, so the
result is finite as long as the ratio stays half a step below the first power of two that is
too large. From this follows which decimals are read as finite numbers, rounded as they are
in several steps.
-/

namespace DocViews

section NearestEven

variable {a b : Nat}

/-- The quotient is rounded by the rest of the division: down, up, or if it is one half to the
even neighbour. -/
theorem nearestEven_cases (a : Nat) (hb : 0 < b) : ∃ q r, a = b * q + r ∧ r < b ∧
    ((2 * r < b ∧ nearestEven a b = q) ∨ (b < 2 * r ∧ nearestEven a b = q + 1) ∨
      (2 * r = b ∧ nearestEven a b = q + q % 2)) := by
  refine ⟨a / b, a % b, (Nat.div_add_mod a b).symm, Nat.mod_lt a hb, ?_⟩
  unfold nearestEven
  dsimp only
  rcases Nat.lt_trichotomy (2 * (a % b)) b with h | h | h
  · exact .inl ⟨h, if_pos h⟩
  · exact .inr (.inr ⟨h, by rw [if_neg (by omega), if_neg (by omega)]⟩)
  · exact .inr (.inl ⟨h, by rw [if_neg (by omega), if_pos h]⟩)

theorem two_mul_nearestEven_le (a : Nat) (hb : 0 < b) : 2 * (nearestEven a b * b) ≤ 2 * a + b := by
  obtain ⟨q, r, rfl, hr, ⟨h, hn⟩ | ⟨h, hn⟩ | ⟨h, hn⟩⟩ := nearestEven_cases a hb
  · rw [hn]
    nlinarith
  · rw [hn]
    nlinarith
  · rcases Nat.mod_two_eq_zero_or_one q with hq | hq <;> rw [hn, hq] <;> nlinarith

theorem le_two_mul_nearestEven (a : Nat) (hb : 0 < b) :
    2 * a ≤ 2 * (nearestEven a b * b) + b := by
  obtain ⟨q, r, rfl, hr, ⟨h, hn⟩ | ⟨h, hn⟩ | ⟨h, hn⟩⟩ := nearestEven_cases a hb
  · rw [hn]
    nlinarith
  · rw [hn]
    nlinarith
  · rcases Nat.mod_two_eq_zero_or_one q with hq | hq <;> rw [hn, hq] <;> nlinarith

/-- What is rounded to an odd number is less than one half off. -/
theorem nearestEven_odd (hb : 0 < b) (odd : nearestEven a b % 2 = 1) :
    2 * (nearestEven a b * b) < 2 * a + b ∧ 2 * a < 2 * (nearestEven a b * b) + b := by
  obtain ⟨q, r, rfl, hr, ⟨h, hn⟩ | ⟨h, hn⟩ | ⟨-, hn⟩⟩ := nearestEven_cases a hb
  · rw [hn]
    constructor <;> nlinarith
  · rw [hn]
    constructor <;> nlinarith
  · omega

theorem div_le_nearestEven (a b : Nat) : a / b ≤ nearestEven a b := by
  unfold nearestEven
  dsimp only
  split
  · exact Nat.le_refl _
  · split <;> omega

/-- What is less than half above a number is not rounded above it. -/
theorem nearestEven_le {k : Nat} (h : 2 * a < (2 * k + 1) * b) : nearestEven a b ≤ k := by
  have hb : 0 < b := by
    rcases Nat.eq_zero_or_pos b with rfl | hb
    · simp at h
    · exact hb
  have hnear := two_mul_nearestEven_le a hb
  have hlt : nearestEven a b * b < (k + 1) * b := by nlinarith
  exact Nat.lt_succ_iff.mp (Nat.lt_of_mul_lt_mul_right hlt)

end NearestEven

namespace Double

/-- How many binary places there are after the point. -/
@[irreducible] def pointShift : Nat := 1074

/-- How many of the places of the largest numbers are not among their digits. -/
@[irreducible] def topShift : Nat := 2045

-- Powers with a literal exponent would be computed, so the exponents go by their names.
theorem pointShift_eq : pointShift = 1074 := by
  unfold pointShift
  rfl

theorem topShift_eq : topShift = 2045 := by
  unfold topShift
  rfl

theorem unitsPerOne_eq : unitsPerOne = 2 ^ pointShift := by
  unfold unitsPerOne
  rw [← pointShift_eq]
  exact Nat.pow_eq

theorem unitsPerOne_pos : 0 < unitsPerOne := by
  rw [unitsPerOne_eq]
  exact Nat.pow_pos (by decide)

theorem binade_eq : binade = 2 ^ 52 := rfl

/-- Half a step above the largest number, in units: what is rounded from here on is infinite. -/
def overflow : Nat := (4 * binade - 1) * 2 ^ (topShift - 1)

theorem overflow_mul_two : overflow * 2 = (4 * binade - 1) * 2 ^ topShift := by
  have hsucc : topShift - 1 + 1 = topShift := by
    have htop := topShift_eq
    omega
  rw [← hsucc, Nat.pow_succ, ← Nat.mul_assoc]
  rfl

/-- The same bound in ones. -/
def limit : Nat := (4 * binade - 1) * 2 ^ (topShift - 1 - pointShift)

theorem overflow_eq : overflow = limit * unitsPerOne := by
  have htop := topShift_eq
  have hpoint := pointShift_eq
  have hsum : topShift - 1 = topShift - 1 - pointShift + pointShift := by omega
  unfold overflow limit
  rw [unitsPerOne_eq, Nat.mul_assoc, ← Nat.pow_add, ← hsum]

theorem significand_lt (x : Double) : x.significand < 2 * binade := by
  have hmod : x.place % binade < binade := Nat.mod_lt _ (by decide)
  unfold significand
  split <;> omega

theorem shift_le (x : Double) : x.shift ≤ topShift := by
  have hplace : x.place / binade < 2047 := Nat.div_lt_of_lt_mul (by
    rw [Nat.mul_comm]
    exact x.place_lt)
  have htop := topShift_eq
  unfold shift
  omega

theorem magnitude_lt (x : Double) : x.magnitude < overflow := by
  have hsignificand : x.significand * 2 < 4 * binade - 1 := by
    have hlt := x.significand_lt
    have hbinade : 0 < binade := by decide
    omega
  have hshift : 2 ^ x.shift ≤ 2 ^ topShift := Nat.pow_le_pow_right (by decide) x.shift_le
  have hpos : 0 < 2 ^ topShift := Nat.pow_pos (by decide)
  have htwice : x.magnitude * 2 < overflow * 2 := by
    calc x.magnitude * 2 = x.significand * 2 ^ x.shift * 2 := rfl
      _ ≤ x.significand * 2 ^ topShift * 2 :=
          Nat.mul_le_mul_right 2 (Nat.mul_le_mul_left _ hshift)
      _ = x.significand * 2 * 2 ^ topShift := by ring
      _ < (4 * binade - 1) * 2 ^ topShift := Nat.mul_lt_mul_of_pos_right hsignificand hpos
      _ = overflow * 2 := overflow_mul_two.symm
  exact Nat.lt_of_mul_lt_mul_right htwice

/-- The digits of the place of `m` steps: they are `m`, unless the next doubling begins there. -/
theorem digits_of_place {x : Double} {shift m : Nat} (place : x.place = shift * binade + m)
    (most : m ≤ 2 * binade) (normal : 0 < shift → binade ≤ m) :
    (m < 2 * binade ∧ x.shift = shift ∧ x.significand = m) ∨
      (m = 2 * binade ∧ x.shift = shift + 1 ∧ x.significand = binade) := by
  have hbinade : 0 < binade := by decide
  unfold significand Double.shift
  rcases Nat.lt_or_ge m binade with small | large
  · -- Only the smallest numbers have fewer digits.
    obtain rfl : shift = 0 := by
      by_contra hne
      exact absurd (normal (Nat.pos_of_ne_zero hne)) (Nat.not_le.mpr small)
    have hplace : x.place = m := by rw [place, Nat.zero_mul, Nat.zero_add]
    refine .inl ⟨by omega, ?_, ?_⟩
    · rw [hplace, Nat.div_eq_of_lt small]
    · rw [hplace, if_pos small]
  · have hge : ¬ x.place < binade := by
      rw [place]
      exact Nat.not_lt.mpr (Nat.le_trans large (Nat.le_add_left _ _))
    have hsum : ∀ k, shift * binade + (binade + k) = k + binade * (shift + 1) := fun k => by ring
    rw [if_neg hge, place]
    rcases Nat.lt_or_ge m (2 * binade) with fits | carry
    · obtain ⟨k, rfl⟩ := Nat.exists_eq_add_of_le large
      have hk : k < binade := by omega
      refine .inl ⟨fits, ?_, ?_⟩
      · rw [hsum, Nat.add_mul_div_left _ _ hbinade, Nat.div_eq_of_lt hk, Nat.zero_add,
          Nat.add_sub_cancel]
      · rw [hsum, Nat.add_mul_mod_self_left, Nat.mod_eq_of_lt hk, Nat.add_comm]
    · obtain rfl : m = 2 * binade := Nat.le_antisymm most carry
      have hcarry : shift * binade + 2 * binade = 0 + binade * (shift + 2) := by ring
      refine .inr ⟨rfl, ?_, ?_⟩
      · rw [hcarry, Nat.add_mul_div_left _ _ hbinade, Nat.zero_div, Nat.zero_add]
        rfl
      · rw [hcarry, Nat.add_mul_mod_self_left, Nat.zero_mod, Nat.zero_add]

theorem magnitude_of_place {x : Double} {shift m : Nat} (place : x.place = shift * binade + m)
    (most : m ≤ 2 * binade) (normal : 0 < shift → binade ≤ m) : x.magnitude = m * 2 ^ shift := by
  show x.significand * 2 ^ x.shift = m * 2 ^ shift
  rcases digits_of_place place most normal with ⟨-, hshift, hdigits⟩ | ⟨rfl, hshift, hdigits⟩
  · rw [hshift, hdigits]
  · rw [hshift, hdigits]
    ring

end Double

namespace Binary64

open Double

variable {negative : Bool} {numerator denominator : Nat}

theorem ofPlace_finite {place : Nat} (h : place < places) :
    ofPlace negative place = .finite ⟨negative, place, h⟩ := dif_pos h

/-- A ratio, rounded to `m` steps of `2 ^ shift`: less than half a step off. There are twice as
many steps as numbers in a binade at most, and half as many at least unless the steps are the
smallest ones. -/
structure Steps (scaled denominator shift m : Nat) : Prop where
  near : 2 * (m * (denominator * 2 ^ shift)) ≤ 2 * scaled + denominator * 2 ^ shift
  next : scaled < (m + 1) * (denominator * 2 ^ shift)
  most : m ≤ 2 * binade
  least : 0 < shift → binade ≤ m
  normal : 0 < shift → denominator * 2 ^ shift * binade ≤ scaled

theorem steps_nearestEven {scaled shift : Nat} (positive : 0 < denominator)
    (hshift : Nat.log2 (scaled / denominator) - 52 = shift) :
    Steps scaled denominator shift (nearestEven scaled (denominator * 2 ^ shift)) := by
  have hstep : 0 < denominator * 2 ^ shift :=
    Nat.mul_pos positive (Nat.pow_pos (by decide))
  have hhigh : scaled / denominator < 2 ^ shift * (2 * binade) := by
    calc scaled / denominator < 2 ^ (Nat.log2 (scaled / denominator) + 1) := Nat.lt_log2_self
      _ ≤ 2 ^ (shift + 53) := Nat.pow_le_pow_right (by decide) (by omega)
      _ = 2 ^ shift * (2 * binade) := by rw [Nat.pow_add]; rfl
  have hnormal : 0 < shift → denominator * 2 ^ shift * binade ≤ scaled := by
    intro hpos
    have hne : scaled / denominator ≠ 0 := by
      intro hzero
      rw [hzero] at hshift
      simp at hshift
      omega
    have hlog : shift + 52 = Nat.log2 (scaled / denominator) := by omega
    have hlow : 2 ^ shift * binade ≤ scaled / denominator := by
      rw [binade_eq, ← Nat.pow_add, hlog]
      exact Nat.log2_self_le hne
    rw [Nat.mul_assoc, Nat.mul_comm]
    exact (Nat.le_div_iff_mul_le positive).mp hlow
  have hfloor := div_le_nearestEven scaled (denominator * 2 ^ shift)
  constructor
  · exact two_mul_nearestEven_le scaled hstep
  · exact (Nat.div_lt_iff_lt_mul hstep).mp (Nat.lt_succ_of_le hfloor)
  · apply nearestEven_le
    have hlt : scaled < denominator * (2 ^ shift * (2 * binade)) := by
      rw [Nat.mul_comm]
      exact (Nat.div_lt_iff_lt_mul positive).mp hhigh
    calc 2 * scaled < 2 * (denominator * (2 ^ shift * (2 * binade))) :=
          Nat.mul_lt_mul_of_pos_left hlt (by decide)
      _ = 2 * (2 * binade) * (denominator * 2 ^ shift) := by ring
      _ ≤ (2 * (2 * binade) + 1) * (denominator * 2 ^ shift) :=
          Nat.mul_le_mul_right _ (Nat.le_succ _)
  · intro hpos
    apply Nat.le_trans _ hfloor
    rw [Nat.le_div_iff_mul_le hstep, Nat.mul_comm]
    exact hnormal hpos
  · exact hnormal

theorem ofRatio_steps (negative : Bool) (numerator : Nat) (positive : 0 < denominator) :
    ∃ shift m, Steps (numerator * unitsPerOne) denominator shift m ∧
      ofRatio negative numerator denominator = ofPlace negative (shift * binade + m) :=
  ⟨_, _, steps_nearestEven positive rfl, rfl⟩

section Finite

variable {scaled shift m : Nat}

theorem overflow_mul_denominator (denominator : Nat) :
    overflow * denominator * 2 = (4 * binade - 1) * (denominator * 2 ^ topShift) := by
  rw [Nat.mul_right_comm, overflow_mul_two]
  ring

/-- Below the bound there are no larger steps than those of the largest numbers. -/
theorem Steps.shift_le (steps : Steps scaled denominator shift m)
    (below : scaled < overflow * denominator) : shift ≤ topShift := by
  by_contra higher
  have hnormal := steps.normal (by omega)
  have hpow : 2 * (denominator * 2 ^ topShift) ≤ denominator * 2 ^ shift := by
    calc 2 * (denominator * 2 ^ topShift) = denominator * 2 ^ (topShift + 1) := by
          rw [Nat.pow_succ]; ring
      _ ≤ denominator * 2 ^ shift :=
          Nat.mul_le_mul_left _ (Nat.pow_le_pow_right (by decide) (Nat.lt_of_not_le higher))
  have htwice : (4 * binade - 1) * (denominator * 2 ^ topShift) ≤ scaled * 2 := by
    calc (4 * binade - 1) * (denominator * 2 ^ topShift)
        ≤ 4 * binade * (denominator * 2 ^ topShift) := Nat.mul_le_mul_right _ (Nat.sub_le _ _)
      _ = 2 * (denominator * 2 ^ topShift) * binade * 2 := by ring
      _ ≤ denominator * 2 ^ shift * binade * 2 :=
          Nat.mul_le_mul_right 2 (Nat.mul_le_mul_right _ hpow)
      _ ≤ scaled * 2 := Nat.mul_le_mul_right 2 hnormal
  rw [← overflow_mul_denominator] at htwice
  omega

/-- Among the largest steps the bound is sharp: half a step below the next binade. -/
theorem Steps.lt_of_topShift (steps : Steps scaled denominator topShift m)
    (below : scaled < overflow * denominator) : m < 2 * binade := by
  have hnear := steps.near
  have htwice : 2 * (m * (denominator * 2 ^ topShift)) <
      4 * binade * (denominator * 2 ^ topShift) := by
    have hoverflow := overflow_mul_denominator denominator
    have hfour : 4 * binade = 4 * binade - 1 + 1 := by decide
    rw [hfour, Nat.add_mul, Nat.one_mul, ← hoverflow]
    omega
  have hmul : m * (2 * (denominator * 2 ^ topShift)) <
      2 * binade * (2 * (denominator * 2 ^ topShift)) := by
    calc m * (2 * (denominator * 2 ^ topShift)) = 2 * (m * (denominator * 2 ^ topShift)) := by
          ring
      _ < 4 * binade * (denominator * 2 ^ topShift) := htwice
      _ = 2 * binade * (2 * (denominator * 2 ^ topShift)) := by ring
  exact Nat.lt_of_mul_lt_mul_right hmul

theorem Steps.lt_places (steps : Steps scaled denominator shift m)
    (below : scaled < overflow * denominator) : shift * binade + m < places := by
  have htop := topShift_eq
  have hplaces : places = 2047 * binade := rfl
  have hbinade : binade = 4503599627370496 := rfl
  rcases Nat.lt_or_eq_of_le (steps.shift_le below) with lower | rfl
  · have hmost := steps.most
    have hshift : shift * binade ≤ (topShift - 1) * binade := Nat.mul_le_mul_right _ (by omega)
    rw [htop] at hshift
    omega
  · have hm := steps.lt_of_topShift below
    rw [htop]
    omega

end Finite

/-- What stays below the bound is finite. -/
theorem ofRatio_finite (negative : Bool) (positive : 0 < denominator)
    (below : numerator * unitsPerOne < overflow * denominator) :
    ∃ x, ofRatio negative numerator denominator = .finite x := by
  obtain ⟨shift, m, steps, hplace⟩ := ofRatio_steps negative numerator positive
  exact ⟨_, hplace.trans (ofPlace_finite (steps.lt_places below))⟩

/-- Ratios that are not among the smallest are rounded by one part in `2 ^ 53` at most. -/
theorem ofRatio_error {x : Double} (positive : 0 < denominator)
    (rounded : ofRatio negative numerator denominator = .finite x)
    (large : denominator * binade ≤ numerator * unitsPerOne) :
    x.magnitude * denominator * (2 * binade) ≤ numerator * unitsPerOne * (2 * binade + 1) ∧
      numerator * unitsPerOne < 2 * (x.magnitude * denominator) := by
  obtain ⟨shift, m, steps, hplace⟩ := ofRatio_steps negative numerator positive
  generalize numerator * unitsPerOne = scaled at large steps ⊢
  have hmagnitude : x.magnitude = m * 2 ^ shift := by
    rw [hplace] at rounded
    unfold ofPlace at rounded
    split at rounded
    · cases rounded
      exact magnitude_of_place rfl steps.most steps.least
    · cases rounded
  have hproduct : x.magnitude * denominator = m * (denominator * 2 ^ shift) := by
    rw [hmagnitude]
    ring
  have hnormal : denominator * 2 ^ shift * binade ≤ scaled := by
    rcases Nat.eq_zero_or_pos shift with rfl | hpos
    · simpa using large
    · exact steps.normal hpos
  have hnear := steps.near
  have hnext := steps.next
  rw [hproduct]
  generalize denominator * 2 ^ shift = step at *
  constructor
  · calc m * step * (2 * binade) = 2 * (m * step) * binade := by ring
      _ ≤ (2 * scaled + step) * binade := Nat.mul_le_mul_right _ hnear
      _ = 2 * scaled * binade + step * binade := by ring
      _ ≤ 2 * scaled * binade + scaled := Nat.add_le_add_left hnormal _
      _ = scaled * (2 * binade + 1) := by ring
  · have htwo : step * 2 ≤ scaled :=
      Nat.le_trans (Nat.mul_le_mul_left _ (by decide)) hnormal
    have hsum : (m + 1) * step = m * step + step := by ring
    rw [hsum] at hnext
    omega

theorem binade_le_unitsPerOne : binade ≤ unitsPerOne := by
  rw [unitsPerOne_eq, binade_eq]
  have hpoint := pointShift_eq
  exact Nat.pow_le_pow_right (by decide) (by omega)

theorem ofNat_finite {n : Nat} (fits : n < limit) : ∃ x, ofNat n = .finite x := by
  apply ofRatio_finite false Nat.one_pos
  rw [Nat.mul_one, overflow_eq]
  exact Nat.mul_lt_mul_of_pos_right fits unitsPerOne_pos

theorem ofNat_error {n : Nat} {x : Double} (rounded : ofNat n = .finite x) (positive : 0 < n) :
    x.magnitude * (2 * binade) ≤ n * unitsPerOne * (2 * binade + 1) ∧
      n * unitsPerOne < 2 * x.magnitude := by
  have large : 1 * binade ≤ n * unitsPerOne :=
    Nat.mul_le_mul positive binade_le_unitsPerOne
  simpa using ofRatio_error Nat.one_pos rounded large

theorem div_eq_ofRatio (x : Double) {y : Double} (positive : 0 < y.magnitude) :
    (Binary64.finite x).div (.finite y) =
      ofRatio (x.negative != y.negative) x.magnitude y.magnitude := by
  have hzero : y.isZero = false := by
    rw [isZero, beq_eq_false_iff_ne]
    intro hplace
    have hmagnitude : y.magnitude = 0 := by
      simp [magnitude, significand, hplace, binade]
    omega
  simp only [div, hzero, Bool.false_eq_true, if_false]

/-- Dividing by one or more keeps a number finite. -/
theorem div_finite (x : Double) {y : Double} (large : unitsPerOne ≤ y.magnitude) :
    ∃ z, (Binary64.finite x).div (.finite y) = .finite z := by
  have hpos : 0 < y.magnitude := Nat.lt_of_lt_of_le unitsPerOne_pos large
  rw [div_eq_ofRatio x hpos]
  apply ofRatio_finite _ hpos
  calc x.magnitude * unitsPerOne ≤ x.magnitude * y.magnitude := Nat.mul_le_mul_left _ large
    _ < overflow * y.magnitude := Nat.mul_lt_mul_of_pos_right x.magnitude_lt hpos

theorem mul_finite {x y : Double} (below : x.magnitude * y.magnitude < overflow * unitsPerOne) :
    ∃ z, (Binary64.finite x).mul (.finite y) = .finite z := by
  apply ofRatio_finite _ (Nat.mul_pos unitsPerOne_pos unitsPerOne_pos)
  rw [← Nat.mul_assoc overflow]
  exact Nat.mul_lt_mul_of_pos_right below unitsPerOne_pos

end Binary64

namespace Json

open Binary64 Double

theorem power_lt_limit {k : Nat} (most : k ≤ 308) : 10 ^ k < limit := by
  have hlast : ∀ last, 308 = last → 10 ^ last < limit := by
    rintro _ rfl
    decide +kernel
  obtain ⟨last, h⟩ : ∃ last, 308 = last := ⟨_, rfl⟩
  exact Nat.lt_of_le_of_lt (Nat.pow_le_pow_right (by decide) (h ▸ most)) (hlast last h)

theorem word_lt_limit {n : Nat} (word : n < 0x10000000000000000) : n < limit := by
  have hlast : 0x10000000000000000 ≤ limit := by decide +kernel
  exact Nat.lt_of_lt_of_le word hlast

/-- A power of ten that is divided by is one or more. -/
theorem ofNat_power {k : Nat} (least : 1 ≤ k) (most : k ≤ 308) :
    ∃ y, ofNat (Nat.pow 10 k) = .finite y ∧ unitsPerOne ≤ y.magnitude := by
  obtain ⟨y, hy⟩ := ofNat_finite (power_lt_limit most)
  refine ⟨y, hy, ?_⟩
  have hten : 2 ≤ 10 ^ k := Nat.le_trans (by decide) (Nat.pow_le_pow_right (by decide) least)
  have hlow := (ofNat_error hy (Nat.pow_pos (by decide))).2
  have htwo : 2 * unitsPerOne ≤ 10 ^ k * unitsPerOne := Nat.mul_le_mul_right _ hten
  omega

theorem shrink_succ (x : Double) (times : Nat) :
    shrink (.finite x) (times + 1) =
      if x.isZero then .finite x
      else shrink ((Binary64.finite x).div (ofNat (Nat.pow 10 308))) times := rfl

theorem shrink_finite (x : Double) (times : Nat) :
    ∃ z, shrink (.finite x) times = .finite z := by
  induction times generalizing x with
  | zero => exact ⟨x, rfl⟩
  | succ times ih =>
      obtain ⟨power, hpower⟩ : ∃ power, 308 = power := ⟨_, rfl⟩
      obtain ⟨y, hy, large⟩ := ofNat_power (k := power) (by omega) (by omega)
      obtain ⟨z, hz⟩ := div_finite x large
      rw [shrink_succ, hpower, hy, hz]
      split
      · exact ⟨x, rfl⟩
      · exact ih z

/-- A negative power of ten leads to no infinity. -/
theorem scaled_negative {significand : Nat} (word : significand < 0x10000000000000000)
    {exponent : Int} (negative : exponent < 0) : ∃ z, scaled significand exponent = .finite z := by
  obtain ⟨x, hx⟩ := ofNat_finite (word_lt_limit word)
  obtain ⟨start, hstart⟩ := shrink_finite x (((-exponent).toNat - 1) / 308)
  obtain ⟨y, hy, large⟩ :=
    ofNat_power (k := (-exponent).toNat - 308 * (((-exponent).toNat - 1) / 308)) (by omega)
      (by omega)
  obtain ⟨z, hz⟩ := div_finite start large
  refine ⟨z, ?_⟩
  unfold scaled
  rw [if_neg (by omega)]
  simp only [hx, hstart, hy, hz]

/-- Nor does a positive one, if there is room for the three roundings. -/
theorem scaled_positive {significand : Nat} (word : significand < 0x10000000000000000)
    {power : Nat} (most : power ≤ 308)
    (room : significand * 10 ^ power * (2 * binade + 1) ^ 2 < limit * (2 * binade) ^ 2)
    (positive : 0 < significand) : ∃ z, scaled significand power = .finite z := by
  obtain ⟨x, hx⟩ := ofNat_finite (word_lt_limit word)
  obtain ⟨y, hy⟩ := ofNat_finite (power_lt_limit most)
  obtain ⟨hfirst, -⟩ := ofNat_error hx positive
  obtain ⟨hsecond, -⟩ := ofNat_error hy (Nat.pow_pos (by decide))
  have below : x.magnitude * y.magnitude < overflow * unitsPerOne := by
    have hsquare : 0 < (2 * binade) ^ 2 := by decide
    have hproduct : x.magnitude * y.magnitude * (2 * binade) ^ 2 <
        overflow * unitsPerOne * (2 * binade) ^ 2 := by
      calc x.magnitude * y.magnitude * (2 * binade) ^ 2
          = x.magnitude * (2 * binade) * (y.magnitude * (2 * binade)) := by ring
        _ ≤ significand * unitsPerOne * (2 * binade + 1) *
              (10 ^ power * unitsPerOne * (2 * binade + 1)) := Nat.mul_le_mul hfirst hsecond
        _ = significand * 10 ^ power * (2 * binade + 1) ^ 2 * (unitsPerOne * unitsPerOne) := by
            ring
        _ < limit * (2 * binade) ^ 2 * (unitsPerOne * unitsPerOne) :=
            Nat.mul_lt_mul_of_pos_right room (Nat.mul_pos unitsPerOne_pos unitsPerOne_pos)
        _ = overflow * unitsPerOne * (2 * binade) ^ 2 := by
            rw [overflow_eq]
            ring
    exact Nat.lt_of_mul_lt_mul_right hproduct
  obtain ⟨z, hz⟩ := mul_finite below
  refine ⟨z, ?_⟩
  unfold scaled
  rw [if_pos (by omega), if_pos (by omega)]
  simp only [Int.toNat_natCast]
  rw [hx, show ofNat (Nat.pow 10 power) = _ from hy, hz]

end Json

end DocViews
