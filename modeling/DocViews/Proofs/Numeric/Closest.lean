import DocViews.Proofs.Numeric.Nearest
import Mathlib.Data.Rat.Floor
import Mathlib.Tactic.FieldSimp
import Mathlib.Tactic.NormNum
import Mathlib.Tactic.Positivity

/-!
Rounding as IEEE 754 prescribes it: to the number that no other one is closer to, of two that
are equally near to the one with the even last digit, and to an infinity from half a step above
the largest number on. This is said of the exact values as rationals, without a word on steps or
places, and it settles the value of the result. The bridge to the computation is the interval of
a number: a ratio is rounded to a number if and only if it lies in its interval, and the interval
ends half-way to the next numbers on either side.
-/

namespace DocViews

namespace Double

variable {x y z : Double}

section Neighbours

theorem shift_mono (h : x.place < z.place) : x.shift ≤ z.shift := by
  have hquotient := Nat.div_le_div_right (c := binade) (Nat.le_of_lt h)
  unfold shift
  omega

/-- From a number on it is one of its steps at least to any larger one. -/
theorem next_le_magnitude (h : x.place < z.place) :
    (x.significand + 1) * 2 ^ x.shift ≤ z.magnitude := by
  have hmagnitude : z.magnitude = z.significand * 2 ^ z.shift := rfl
  have hx := x.place_eq
  have hz := z.place_eq
  have hlt := x.significand_lt
  rw [hmagnitude]
  rcases Nat.lt_or_eq_of_le (shift_mono h) with hshift | hshift
  · -- The first number with larger steps is already far enough.
    have hleast := z.binade_le_significand (by omega)
    calc (x.significand + 1) * 2 ^ x.shift ≤ 2 * binade * 2 ^ x.shift :=
          Nat.mul_le_mul_right _ hlt
      _ = binade * 2 ^ (x.shift + 1) := by ring
      _ ≤ binade * 2 ^ z.shift :=
          Nat.mul_le_mul_left _ (Nat.pow_le_pow_right (by decide) hshift)
      _ ≤ z.significand * 2 ^ z.shift := Nat.mul_le_mul_right _ hleast
  · rw [hshift] at hx ⊢
    exact Nat.mul_le_mul_right _ (by omega)

/-- Down to any smaller number it is twice the part of the interval below it at least. -/
theorem magnitude_le_previous (h : z.place < x.place) :
    2 * z.magnitude + x.gap * 2 ^ x.shift ≤ 2 * x.magnitude := by
  have hnext := next_le_magnitude h
  have hx : x.magnitude = x.significand * 2 ^ x.shift := rfl
  have hz : z.magnitude = z.significand * 2 ^ z.shift := rfl
  have hgap := x.gap_le
  have hbinade : 0 < binade := by decide
  rcases Nat.lt_or_eq_of_le (shift_mono h) with hshift | hshift
  · -- The last number with smaller steps, half as large at most, is the closest that there can be.
    obtain ⟨shift, hsucc⟩ := Nat.exists_eq_add_of_lt hshift
    have hleast := x.binade_le_significand (by omega)
    have hlt := z.significand_lt
    have hlower : z.significand * 2 ^ z.shift ≤ (2 * binade - 1) * 2 ^ (z.shift + shift) :=
      Nat.mul_le_mul (by omega) (Nat.pow_le_pow_right (by decide) (Nat.le_add_right _ _))
    have hdigits : 2 * (2 * binade - 1) + 2 * x.gap ≤ 4 * x.significand := by
      rcases Nat.lt_or_eq_of_le hleast with hmore | hpower
      · omega
      · have hone : x.gap = 1 := if_pos ⟨hpower.symm, by omega⟩
        omega
    have hscaled := Nat.mul_le_mul_right (2 ^ (z.shift + shift)) hdigits
    rw [hx, hz, hsucc, Nat.pow_succ]
    linarith
  · rw [hshift] at hnext
    have hpos : 0 < 2 ^ x.shift := Nat.pow_pos (by decide)
    rw [hz, hshift]
    nlinarith

end Neighbours

/-- A sign put to an absolute value. -/
def signed (negative : Bool) (q : ℚ) : ℚ := if negative then -q else q

/-- The absolute value. -/
def size (x : Double) : ℚ := x.magnitude / unitsPerOne

/-- What the number stands for. Both zeros have the value zero. -/
def value (x : Double) : ℚ := signed x.negative x.size

/-- How far it is to the next larger absolute value. -/
def step (x : Double) : ℚ := 2 ^ x.shift / unitsPerOne

theorem unitsPerOne_cast_pos : (0 : ℚ) < unitsPerOne := Nat.cast_pos.mpr unitsPerOne_pos

theorem step_pos (x : Double) : 0 < x.step := div_pos (by positivity) unitsPerOne_cast_pos

/-- Steps of large numbers are powers of two, and those of small ones parts of one. -/
theorem step_of_large {k : Nat} (h : x.shift = pointShift + k) : x.step = 2 ^ k := by
  have hpos : (0 : ℚ) < 2 ^ pointShift := by positivity
  rw [step, h, unitsPerOne_eq, pow_add]
  push_cast
  exact mul_div_cancel_left₀ _ (ne_of_gt hpos)

theorem step_of_small {k : Nat} (h : x.shift + k = pointShift) : x.step = 1 / 2 ^ k := by
  rw [step, unitsPerOne_eq, ← h, pow_add]
  push_cast
  field_simp

theorem size_nonneg (x : Double) : 0 ≤ x.size := div_nonneg (Nat.cast_nonneg _) (Nat.cast_nonneg _)

theorem size_eq (x : Double) : x.size = x.significand * x.step := by
  have hmagnitude : (x.magnitude : ℚ) = x.significand * 2 ^ x.shift := by
    have hproduct : x.magnitude = x.significand * 2 ^ x.shift := rfl
    rw [hproduct]
    push_cast
    rfl
  rw [size, hmagnitude, step, mul_div_assoc]

theorem size_next (h : x.place < z.place) : x.size + x.step ≤ z.size := by
  have hnext : ((x.significand : ℚ) + 1) * 2 ^ x.shift ≤ z.magnitude := by
    exact_mod_cast next_le_magnitude h
  rw [size_eq, step, size, ← mul_div_assoc, ← add_div]
  apply div_le_div_of_nonneg_right _ (Nat.cast_nonneg _)
  linarith

theorem size_previous (h : z.place < x.place) : z.size + x.gap / 2 * x.step ≤ x.size := by
  have hprevious : 2 * (z.magnitude : ℚ) + x.gap * 2 ^ x.shift ≤ 2 * x.magnitude := by
    exact_mod_cast magnitude_le_previous h
  rw [size, step, size, ← mul_div_assoc, ← add_div]
  apply div_le_div_of_nonneg_right _ (Nat.cast_nonneg _)
  linarith

theorem size_congr (h : x.place = z.place) : x.size = z.size := by
  unfold size magnitude significand shift
  rw [h]

theorem size_lt_of_place_lt (h : x.place < z.place) : x.size < z.size := by
  linarith [size_next h, x.step_pos]

theorem size_lt_iff : x.size < z.size ↔ x.place < z.place := by
  constructor
  · intro h
    by_contra hge
    rcases Nat.lt_or_eq_of_le (Nat.le_of_not_lt hge) with hlt | heq
    · linarith [size_lt_of_place_lt hlt]
    · linarith [size_congr heq]
  · exact size_lt_of_place_lt

section Interval

variable {numerator denominator : Nat}

/-- Where a ratio is rounded to, in steps of the size that is chosen for it. -/
theorem rounded_place {negative : Bool} (positive : 0 < denominator)
    (rounded : Binary64.ofRatio negative numerator denominator = .finite x) :
    x.negative = negative ∧ ∃ shift m, x.place = shift * binade + m ∧
      m = nearestEven (numerator * unitsPerOne) (denominator * 2 ^ shift) ∧
      Binary64.Steps (numerator * unitsPerOne) denominator shift m := by
  obtain ⟨shift, hshift⟩ :
      ∃ shift, Nat.log2 (numerator * unitsPerOne / denominator) - 52 = shift := ⟨_, rfl⟩
  have hplace : Binary64.ofRatio negative numerator denominator = Binary64.ofPlace negative
      (shift * binade +
        nearestEven (numerator * unitsPerOne) (denominator * 2 ^ shift)) := by
    rw [← hshift]
    rfl
  rw [hplace] at rounded
  unfold Binary64.ofPlace at rounded
  split at rounded
  · cases rounded
    exact ⟨rfl, shift, _, rfl, rfl, Binary64.steps_nearestEven positive hshift⟩
  · cases rounded

/-- Half a step to either side, in quarters, where the ends are for the even numbers. -/
theorem nearestEven_interval (scaled : Nat) {step m : Nat} (positive : 0 < step)
    (rounded : m = nearestEven scaled step) :
    (4 * m - 2) * step ≤ 4 * scaled ∧ 4 * scaled ≤ (4 * m + 2) * step ∧
      (m % 2 = 1 → (4 * m - 2) * step < 4 * scaled ∧ 4 * scaled < (4 * m + 2) * step) := by
  have near := two_mul_nearestEven_le scaled positive
  have above := le_two_mul_nearestEven scaled positive
  have odd := nearestEven_odd (a := scaled) positive
  rw [← rounded] at near above odd
  have hfour : 4 * m * step = 4 * (m * step) := Nat.mul_assoc _ _ _
  rw [Nat.sub_mul, Nat.add_mul, hfour]
  refine ⟨by omega, by omega, fun h => ?_⟩
  have hone : step ≤ m * step := Nat.le_mul_of_pos_left _ (by omega)
  obtain ⟨hlow, hhigh⟩ := odd h
  omega

/-- Rounding stays inside the interval, so the interval is exactly what rounds to a number. -/
theorem covers_of_ofRatio {negative : Bool} (positive : 0 < denominator)
    (rounded : Binary64.ofRatio negative numerator denominator = .finite x) :
    x.negative = negative ∧ x.Covers numerator denominator := by
  obtain ⟨sign, shift, m, hplace, hm, steps⟩ := rounded_place positive rounded
  have hstep : 0 < denominator * 2 ^ shift := Nat.mul_pos positive (Nat.pow_pos (by decide))
  obtain ⟨hlow, hhigh, odd⟩ := nearestEven_interval _ hstep hm
  have hvalue : 4 * unitsPerOne * numerator = 4 * (numerator * unitsPerOne) := by ring
  refine ⟨sign, ?_⟩
  unfold Covers gap
  dsimp only
  rw [hvalue]
  rcases digits_of_place hplace steps.most steps.least with
    ⟨-, hsame, hdigits⟩ | ⟨rfl, hsucc, hdigits⟩
  · rw [hsame, hdigits]
    split
    · next hpower =>
        -- The ratio is not below the power of two, or there would be smaller steps for it.
        obtain ⟨rfl, hpos⟩ := hpower
        have hnormal := steps.normal hpos
        refine ⟨?_, hhigh, fun h => absurd h (by decide)⟩
        calc (4 * binade - 1) * (denominator * 2 ^ shift)
            ≤ 4 * binade * (denominator * 2 ^ shift) := Nat.mul_le_mul_right _ (Nat.sub_le _ _)
          _ = 4 * (denominator * 2 ^ shift * binade) := by ring
          _ ≤ 4 * (numerator * unitsPerOne) := Nat.mul_le_mul_left _ hnormal
    · exact ⟨hlow, hhigh, odd⟩
  · have hsplit : denominator * 2 ^ (shift + 1) = denominator * 2 ^ shift * 2 := by
      rw [Nat.pow_succ, Nat.mul_assoc]
    rw [hsucc, hdigits, hsplit, if_pos ⟨rfl, Nat.succ_pos _⟩]
    rw [Nat.sub_mul, Nat.sub_le_iff_le_add] at hlow
    refine ⟨?_, by linarith, fun h => absurd h (by decide)⟩
    rw [Nat.sub_mul, Nat.sub_le_iff_le_add]
    linarith

theorem Covers.between (positive : 0 < denominator) (covers : x.Covers numerator denominator) :
    let q : ℚ := numerator / denominator
    x.size - x.gap / 4 * x.step ≤ q ∧ q ≤ x.size + x.step / 2 ∧
      (x.significand % 2 = 1 → x.size - x.gap / 4 * x.step < q ∧ q < x.size + x.step / 2) := by
  obtain ⟨low, high, odd⟩ := covers
  dsimp only at low high odd ⊢
  have hsteps : (0 : ℚ) < (denominator * 2 ^ x.shift : Nat) :=
    Nat.cast_pos.mpr (Nat.mul_pos positive (Nat.pow_pos (by decide)))
  -- The ratio in quarters of a step, in which the ends of the interval are whole numbers.
  obtain ⟨quarters, hquarters⟩ : ∃ quarters : ℚ,
      (4 * unitsPerOne * numerator : Nat) / (denominator * 2 ^ x.shift : Nat) = quarters :=
    ⟨_, rfl⟩
  have hratio : (numerator / denominator : ℚ) = quarters * (x.step / 4) := by
    have hd : (denominator : ℚ) ≠ 0 := Nat.cast_ne_zero.mpr (Nat.ne_of_gt positive)
    have hu : (unitsPerOne : ℚ) ≠ 0 := ne_of_gt unitsPerOne_cast_pos
    rw [← hquarters, step]
    push_cast
    field_simp
  have hlow : (4 * x.significand : ℚ) - x.gap ≤ (4 * x.significand - x.gap : Nat) := by
    rw [sub_le_iff_le_add]
    exact_mod_cast Nat.le_add_of_sub_le (Nat.le_refl (4 * x.significand - x.gap))
  have hends : x.size - x.gap / 4 * x.step = (4 * x.significand - x.gap) * (x.step / 4) ∧
      x.size + x.step / 2 = (4 * x.significand + 2 : Nat) * (x.step / 4) := by
    rw [size_eq]
    push_cast
    constructor <;> ring
  have hpos : 0 < x.step / 4 := div_pos x.step_pos (by norm_num)
  rw [hends.1, hends.2, hratio, mul_le_mul_iff_left₀ hpos, mul_le_mul_iff_left₀ hpos,
    mul_lt_mul_iff_left₀ hpos, mul_lt_mul_iff_left₀ hpos, ← hquarters, div_le_iff₀ hsteps,
    div_lt_iff₀ hsteps]
  refine ⟨hlow.trans ((le_div_iff₀ hsteps).mpr (by exact_mod_cast low)), by exact_mod_cast high,
    fun h => ?_⟩
  obtain ⟨above, below⟩ := odd h
  exact ⟨hlow.trans_lt ((lt_div_iff₀ hsteps).mpr (by exact_mod_cast above)),
    by exact_mod_cast below⟩

/-- No number of another size is closer to a ratio in the interval, and none is equally near if
the last digit is odd. -/
theorem Covers.closest (positive : 0 < denominator) (covers : x.Covers numerator denominator)
    (other : z.place ≠ x.place) :
    let q : ℚ := numerator / denominator
    |q - x.size| ≤ |q - z.size| ∧ (x.significand % 2 = 1 → |q - x.size| < |q - z.size|) := by
  obtain ⟨low, high, odd⟩ := covers.between positive
  dsimp only at low high odd ⊢
  generalize (numerator / denominator : ℚ) = q at *
  have hstep := x.step_pos
  rcases Nat.lt_or_gt_of_ne other with smaller | larger
  · have hprevious := size_previous smaller
    have hless := size_lt_of_place_lt smaller
    rw [abs_of_nonneg (by linarith : 0 ≤ q - z.size), abs_le]
    refine ⟨⟨by linarith, by linarith⟩, fun h => ?_⟩
    obtain ⟨above, -⟩ := odd h
    rw [abs_lt]
    constructor <;> linarith
  · have hnext := size_next larger
    rw [abs_of_nonpos (by linarith : q - z.size ≤ 0), abs_le]
    refine ⟨⟨by linarith, by linarith⟩, fun h => ?_⟩
    obtain ⟨-, below⟩ := odd h
    rw [abs_lt]
    constructor <;> linarith

end Interval

section Sign

theorem value_of_nonneg (h : x.negative = false) : x.value = x.size := by
  rw [value, h]
  rfl

theorem value_of_negative (h : x.negative = true) : x.value = -x.size := by
  rw [value, h]
  rfl

theorem abs_value (x : Double) : |x.value| = x.size := by
  unfold value signed
  split
  · rw [abs_neg, abs_of_nonneg x.size_nonneg]
  · rw [abs_of_nonneg x.size_nonneg]

theorem value_neg (x : Double) : x.neg.value = -x.value := by
  have hsize : x.neg.size = x.size := rfl
  have hnegative : x.neg.negative = !x.negative := rfl
  rw [value, value, hsize, hnegative]
  cases x.negative <;> simp [signed]

theorem value_eq_size (nonneg : 0 ≤ x.value) : x.value = x.size := by
  rw [← abs_value, abs_of_nonneg nonneg]

theorem size_pos (h : x.isZero = false) : 0 < x.size :=
  div_pos (Nat.cast_pos.mpr (magnitude_pos h)) unitsPerOne_cast_pos

theorem size_zero (h : x.isZero = true) : x.size = 0 := by
  have hplace : x.place = 0 := by simpa [isZero] using h
  rw [size_eq, significand, hplace, if_pos (by decide), Nat.cast_zero, zero_mul]

theorem value_neg_iff : x.value < 0 ↔ x.negative = true ∧ x.isZero = false := by
  have hsize := x.size_nonneg
  cases hsign : x.negative with
  | false =>
      rw [value_of_nonneg hsign]
      simpa using hsize
  | true =>
      rw [value_of_negative hsign, neg_lt_zero]
      cases hzero : x.isZero with
      | false => simpa using size_pos hzero
      | true => simp [size_zero hzero]

theorem zero_value : (zero false).value = 0 := by
  rw [value_of_nonneg rfl, size_zero rfl]

/-- On the side of a ratio the numbers are closer to it than on the other. -/
theorem abs_sub_size_le {q : ℚ} (nonneg : 0 ≤ q) (z : Double) : |q - z.size| ≤ |q - z.value| := by
  have hsizes := abs_abs_sub_abs_le_abs_sub q z.value
  rwa [abs_of_nonneg nonneg, abs_value] at hsizes

end Sign

/-- What a rational is rounded to among the finite numbers: no other one is closer, and where
another one is equally near, the last digit is even. -/
structure Nearest (x : Double) (q : ℚ) : Prop where
  closest : ∀ z : Double, |q - x.value| ≤ |q - z.value|
  even : ∀ z : Double, z.value ≠ x.value → |q - z.value| = |q - x.value| →
    x.significand % 2 = 0

theorem Nearest.neg {q : ℚ} (nearest : x.Nearest q) : x.neg.Nearest (-q) := by
  have hdistance : ∀ z : Double, |(-q) - z.value| = |q - z.neg.value| := fun z => by
    rw [value_neg, ← abs_neg]
    congr 1
    ring
  have hneg : x.neg.neg = x := by simp [Double.neg]
  constructor
  · intro z
    rw [hdistance, hdistance, hneg]
    exact nearest.closest z.neg
  · intro z hne heq
    rw [hdistance, hdistance, hneg] at heq
    refine nearest.even z.neg (fun h => hne ?_) heq
    rw [value_neg, ← h, value_neg, neg_neg]

/-- What is rounded to a number is on its side of the middle to any other one. -/
theorem Nearest.add_value_le {q : ℚ} (nearest : x.Nearest q) (less : z.value < x.value) :
    z.value + x.value ≤ 2 * q := by
  have hsquares := sq_le_sq.mpr (nearest.closest z)
  nlinarith

theorem Nearest.le_add_value {q : ℚ} (nearest : x.Nearest q) (less : x.value < z.value) :
    2 * q ≤ x.value + z.value := by
  have hsquares := sq_le_sq.mpr (nearest.closest z)
  nlinarith

theorem Covers.nearest_of_nonneg {numerator denominator : Nat} (positive : 0 < denominator)
    (covers : x.Covers numerator denominator) (sign : x.negative = false) :
    x.Nearest (numerator / denominator) := by
  have closest := fun z : Double => covers.closest (z := z) positive
  have hq : (0 : ℚ) ≤ numerator / denominator := div_nonneg (Nat.cast_nonneg _) (Nat.cast_nonneg _)
  dsimp only at closest
  generalize (numerator / denominator : ℚ) = q at *
  constructor
  · intro z
    rw [value_of_nonneg sign]
    refine le_trans ?_ (abs_sub_size_le hq z)
    by_cases same : z.place = x.place
    · rw [size_congr same]
    · exact (closest z same).1
  · intro z hne heq
    rw [value_of_nonneg sign] at hne heq
    by_contra hodd
    have odd : x.significand % 2 = 1 := by omega
    by_cases same : z.place = x.place
    · -- It is the opposite number, which is not even as close as zero.
      have hplace : (zero false).place ≠ x.place := by
        intro h
        have hsignificand : x.significand = 0 := by
          rw [significand, ← h, if_pos (by decide)]
          rfl
        omega
      have hnear := ((closest _ hplace).2 odd).trans_le (abs_sub_size_le hq (zero false))
      rw [zero_value, sub_zero, abs_of_nonneg hq] at hnear
      have hopposite : z.negative = true := by
        by_contra h
        exact hne ((value_of_nonneg (eq_false_of_ne_true h)).trans (size_congr same))
      have hsize := x.size_nonneg
      rw [value_of_negative hopposite, size_congr same, sub_neg_eq_add,
        abs_of_nonneg (by linarith)] at heq
      linarith
    · have hfar := ((closest z same).2 odd).trans_le (abs_sub_size_le hq z)
      linarith

theorem Covers.nearest {numerator denominator : Nat} (positive : 0 < denominator)
    (covers : x.Covers numerator denominator) :
    x.Nearest (signed x.negative (numerator / denominator)) := by
  cases sign : x.negative with
  | false => exact covers.nearest_of_nonneg positive sign
  | true =>
      -- The interval does not depend on the sign.
      have opposite : x.neg.Covers numerator denominator := covers
      have nearest := (opposite.nearest_of_nonneg positive (by simp [Double.neg, sign])).neg
      have hneg : x.neg.neg = x := by simp [Double.neg]
      rw [hneg] at nearest
      exact nearest

section Unique

variable {q : ℚ}

/-- Odd and even digits take turns along the numbers. -/
theorem significand_mod_two (x : Double) : x.significand % 2 = x.place % 2 := by
  have hbinade : x.shift * binade = 2 * (x.shift * 0x8000000000000) := by
    unfold binade
    ring
  rw [x.place_eq, hbinade]
  omega

theorem Nearest.value_nonneg (nearest : x.Nearest q) (nonneg : 0 ≤ q) : 0 ≤ x.value := by
  by_contra hneg
  have hzero := nearest.closest (zero false)
  rw [zero_value, sub_zero, abs_of_nonneg nonneg, abs_of_nonneg (by linarith)] at hzero
  linarith

/-- Two numbers can only be nearest to the same rational if they are neighbours with even last
digits, and there are no such neighbours. -/
theorem Nearest.value_le (hx : x.Nearest q) (hy : y.Nearest q) (nonneg : 0 ≤ q) :
    y.value ≤ x.value := by
  by_contra hlt
  have h := not_le.mp hlt
  have heq : |q - x.value| = |q - y.value| := le_antisymm (hx.closest y) (hy.closest x)
  have hmiddle : 2 * q = x.value + y.value := le_antisymm (hx.le_add_value h) (hy.add_value_le h)
  have hsizes : x.size < y.size := by
    rwa [← value_eq_size (hx.value_nonneg nonneg), ← value_eq_size (hy.value_nonneg nonneg)]
  have hplace := size_lt_iff.mp hsizes
  rcases Nat.lt_or_eq_of_le (Nat.succ_le_of_lt hplace) with further | neighbours
  · -- A number between the two is closer than both, since they are as far to either side.
    let between : Double := ⟨false, x.place + 1, Nat.lt_trans further y.place_lt⟩
    have habove : x.value < between.value := by
      rw [value_eq_size (hx.value_nonneg nonneg)]
      exact size_lt_of_place_lt (Nat.lt_succ_self x.place)
    have hbelow : between.value < y.value := by
      rw [value_eq_size (hy.value_nonneg nonneg)]
      exact size_lt_of_place_lt further
    have hcloser : |q - between.value| < |q - x.value| := by
      rw [abs_of_nonneg (by linarith : 0 ≤ q - x.value), abs_lt]
      constructor <;> linarith
    exact absurd (hx.closest between) (not_le.mpr hcloser)
  · have hevenx := hx.even y (ne_of_gt h) heq.symm
    have heveny := hy.even x (ne_of_lt h) heq
    rw [significand_mod_two] at hevenx heveny
    omega

/-- So the value that a rational is rounded to is settled. -/
theorem Nearest.unique (hx : x.Nearest q) (hy : y.Nearest q) : x.value = y.value := by
  have settled : ∀ {q : ℚ} {x y : Double}, 0 ≤ q → x.Nearest q → y.Nearest q →
      x.value = y.value := fun nonneg hx hy =>
    le_antisymm (hy.value_le hx nonneg) (hx.value_le hy nonneg)
  rcases le_total 0 q with nonneg | nonpos
  · exact settled nonneg hx hy
  · have opposite := settled (neg_nonneg.mpr nonpos) hx.neg hy.neg
    rw [value_neg, value_neg] at opposite
    linarith

end Unique

end Double

namespace Binary64

open Double

/-- What a rational is rounded to: the nearest number, or the infinity of its sign if it is half
a step above the largest number or more. -/
inductive RoundsTo (q : ℚ) : Binary64 → Prop
  | finite {x : Double} (below : |q| < limit) (nearest : x.Nearest q) : RoundsTo q (.finite x)
  | infinity {negative : Bool} (beyond : limit ≤ |q|) (sign : negative = decide (q < 0)) :
      RoundsTo q (.infinity negative)

variable {numerator denominator : Nat}

theorem abs_signed (negative : Bool) (numerator denominator : Nat) :
    |signed negative (numerator / denominator)| = numerator / denominator := by
  have hq : (0 : ℚ) ≤ numerator / denominator := div_nonneg (Nat.cast_nonneg _) (Nat.cast_nonneg _)
  unfold signed
  split
  · rw [abs_neg, abs_of_nonneg hq]
  · exact abs_of_nonneg hq

/-- The interval of the largest number ends where the infinite results begin. -/
theorem lt_limit_of_covers {x : Double} (positive : 0 < denominator)
    (covers : x.Covers numerator denominator) : numerator < limit * denominator := by
  obtain ⟨-, high, odd⟩ := covers
  have hstep : denominator * 2 ^ x.shift ≤ denominator * 2 ^ topShift :=
    Nat.mul_le_mul_left _ (Nat.pow_le_pow_right (by decide) x.shift_le)
  have hpos : 0 < denominator * 2 ^ x.shift := Nat.mul_pos positive (Nat.pow_pos (by decide))
  have hdigits := x.significand_lt
  have hend := overflow_mul_denominator denominator
  have hlt : 4 * unitsPerOne * numerator < 2 * (overflow * denominator * 2) := by
    rw [hend, ← Nat.mul_assoc]
    have hle : (4 * x.significand + 2) * (denominator * 2 ^ x.shift) ≤
        2 * (4 * binade - 1) * (denominator * 2 ^ topShift) :=
      Nat.mul_le_mul (by omega) hstep
    -- The largest number is odd, so that the end of its interval is not in it.
    rcases Nat.mod_two_eq_zero_or_one x.significand with heven | hodd
    · have hbinade : binade = 4503599627370496 := rfl
      have hless : (4 * x.significand + 2) * (denominator * 2 ^ x.shift) <
          2 * (4 * binade - 1) * (denominator * 2 ^ x.shift) :=
        Nat.mul_lt_mul_of_pos_right (by omega) hpos
      exact Nat.lt_of_lt_of_le (Nat.lt_of_le_of_lt high hless) (Nat.mul_le_mul_left _ hstep)
    · exact Nat.lt_of_lt_of_le (odd hodd).2 hle
  have hunits : unitsPerOne * numerator < unitsPerOne * (limit * denominator) := by
    have hoverflow : overflow * denominator = unitsPerOne * (limit * denominator) := by
      rw [overflow_eq]
      ring
    rw [← hoverflow]
    have hfour : 4 * unitsPerOne * numerator = 4 * (unitsPerOne * numerator) :=
      Nat.mul_assoc _ _ _
    omega
  exact Nat.lt_of_mul_lt_mul_left hunits

/-- Ratios are rounded correctly. -/
theorem ofRatio_roundsTo (negative : Bool) (numerator : Nat) (positive : 0 < denominator) :
    RoundsTo (signed negative (numerator / denominator))
      (ofRatio negative numerator denominator) := by
  have hd : (0 : ℚ) < denominator := Nat.cast_pos.mpr positive
  rcases Nat.lt_or_ge numerator (limit * denominator) with below | beyond
  · have hscaled : numerator * unitsPerOne < overflow * denominator := by
      rw [overflow_eq, Nat.mul_right_comm]
      exact Nat.mul_lt_mul_of_pos_right below unitsPerOne_pos
    obtain ⟨x, hx⟩ := ofRatio_finite negative positive hscaled
    obtain ⟨rfl, covers⟩ := covers_of_ofRatio positive hx
    rw [hx]
    refine .finite ?_ (covers.nearest positive)
    rw [abs_signed, div_lt_iff₀ hd]
    exact_mod_cast below
  · have hinfinite : ofRatio negative numerator denominator = .infinity negative := by
      obtain ⟨shift, m, -, hplace⟩ := ofRatio_steps negative numerator positive
      rw [hplace]
      unfold ofPlace
      split
      · next fits =>
          rw [ofPlace_finite fits] at hplace
          have covers := (covers_of_ofRatio positive hplace).2
          exact absurd (lt_limit_of_covers positive covers) (Nat.not_lt.mpr beyond)
      · rfl
    have hbeyond : (limit : ℚ) ≤ numerator / denominator := by
      rw [le_div_iff₀ hd]
      exact_mod_cast beyond
    have hlimit : 0 < limit := Json.word_lt_limit (by decide)
    have hpos : (0 : ℚ) < numerator / denominator := (Nat.cast_pos.mpr hlimit).trans_le hbeyond
    rw [hinfinite]
    refine .infinity (by rwa [abs_signed]) ?_
    cases negative with
    | false => simpa [signed] using hpos.le
    | true => simpa [signed] using hpos

/-- So are products of numbers. -/
theorem mul_roundsTo (x y : Double) :
    RoundsTo (x.value * y.value) ((Binary64.finite x).mul (.finite y)) := by
  have hproduct : x.value * y.value = signed (x.negative != y.negative)
      ((x.magnitude * y.magnitude : Nat) / (unitsPerOne * unitsPerOne : Nat)) := by
    have hsizes : ((x.magnitude * y.magnitude : Nat) : ℚ) / (unitsPerOne * unitsPerOne : Nat) =
        x.size * y.size := by
      push_cast
      exact mul_div_mul_comm _ _ _ _
    rw [hsizes, value, value]
    cases x.negative <;> cases y.negative <;> simp [signed]
  rw [hproduct]
  exact ofRatio_roundsTo _ _ (Nat.mul_pos unitsPerOne_pos unitsPerOne_pos)

end Binary64

end DocViews
