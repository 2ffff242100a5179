import DocViews.Proofs.Numeric.Exactness
import DocViews.Proofs.Numeric.Shortest

/-!
What is rounded to a binary64 number: all ratios in the interval around it, whose ends belong to
it if its last digit is even. The decimal that a number is shown as is one of them, so that a
reader who rounds once would read the number again. Seventeen digits are always enough for that.
-/

namespace DocViews

theorem nearestEven_eq {a b m : Nat} (positive : 0 < b) (low : 2 * m * b ≤ 2 * a + b)
    (high : 2 * a ≤ 2 * m * b + b)
    (odd : m % 2 = 1 → 2 * m * b < 2 * a + b ∧ 2 * a < 2 * m * b + b) : nearestEven a b = m := by
  obtain ⟨q, r, rfl, hr, cases⟩ := nearestEven_cases a positive
  have hle : q ≤ m := by
    by_contra h
    nlinarith [Nat.lt_of_not_le h]
  have hge : m ≤ q + 1 := by
    by_contra h
    nlinarith [Nat.lt_of_not_le h]
  rcases Nat.lt_or_eq_of_le hge with hlt | rfl
  · obtain rfl : q = m := by omega
    rcases cases with ⟨-, hn⟩ | ⟨hmore, -⟩ | ⟨htie, hn⟩
    · exact hn
    · nlinarith
    · have even : q % 2 = 0 := by
        by_contra h
        obtain ⟨-, above⟩ := odd (by omega)
        nlinarith
      rw [hn, even, Nat.add_zero]
  · rcases cases with ⟨hless, -⟩ | ⟨-, hn⟩ | ⟨htie, hn⟩
    · nlinarith
    · exact hn
    · have even : (q + 1) % 2 = 0 := by
        by_contra h
        obtain ⟨below, -⟩ := odd (by omega)
        nlinarith
      omega

namespace Double

variable {x : Double} {numerator denominator : Nat}

theorem place_eq (x : Double) : x.place = x.shift * binade + x.significand := by
  have hsplit := Nat.div_add_mod x.place binade
  unfold shift significand
  split
  · next small => rw [Nat.div_eq_of_lt small, Nat.zero_mul, Nat.zero_add]
  · next large =>
      have hquotient : 1 ≤ x.place / binade :=
        (Nat.one_le_div_iff (by decide)).mpr (Nat.not_lt.mp large)
      rw [Nat.sub_mul, Nat.mul_comm (x.place / binade)]
      have hproduct : 1 * binade ≤ binade * (x.place / binade) := by
        rw [Nat.mul_comm binade]
        exact Nat.mul_le_mul_right _ hquotient
      omega

theorem binade_le_significand (x : Double) (h : 0 < x.shift) : binade ≤ x.significand := by
  have hlarge : ¬ x.place < binade := by
    intro small
    rw [shift, Nat.div_eq_of_lt small] at h
    exact absurd h (by decide)
  rw [significand, if_neg hlarge]
  exact Nat.le_add_left _ _

/-- The distance of the lower end of the interval, in quarters of the step: below a power of two
the steps are half as large. -/
def gap (x : Double) : Nat := if x.significand = binade ∧ 0 < x.shift then 1 else 2

theorem gap_le (x : Double) : x.gap ≤ 2 := by
  unfold gap
  split <;> decide

/-- Whether a ratio lies in the interval of what rounds to the number. -/
def Covers (x : Double) (numerator denominator : Nat) : Prop :=
  let step := denominator * 2 ^ x.shift
  let low := (4 * x.significand - x.gap) * step
  let high := (4 * x.significand + 2) * step
  let value := 4 * unitsPerOne * numerator
  low ≤ value ∧ value ≤ high ∧ (x.significand % 2 = 1 → low < value ∧ value < high)

section Ratio

variable {k v n d n' d' : Nat}

theorem le_ratio_iff (positive : 0 < d) (positive' : 0 < d') (same : n * d' = n' * d) :
    k * d ≤ v * n ↔ k * d' ≤ v * n' := by
  rw [← Nat.mul_le_mul_right_iff positive', Nat.mul_assoc v, same, ← Nat.mul_assoc v,
    Nat.mul_right_comm k, Nat.mul_le_mul_right_iff positive]

theorem ratio_le_iff (positive : 0 < d) (positive' : 0 < d') (same : n * d' = n' * d) :
    v * n ≤ k * d ↔ v * n' ≤ k * d' := by
  rw [← Nat.mul_le_mul_right_iff positive', Nat.mul_assoc v, same, ← Nat.mul_assoc v,
    Nat.mul_right_comm k, Nat.mul_le_mul_right_iff positive]

/-- Whether a ratio lies in the interval is up to the ratio. -/
theorem Covers.congr (covers : x.Covers n d) (positive : 0 < d) (positive' : 0 < d')
    (same : n * d' = n' * d) : x.Covers n' d' := by
  have hstep : 0 < d * 2 ^ x.shift := Nat.mul_pos positive (Nat.pow_pos (by decide))
  have hstep' : 0 < d' * 2 ^ x.shift := Nat.mul_pos positive' (Nat.pow_pos (by decide))
  have hsame : n * (d' * 2 ^ x.shift) = n' * (d * 2 ^ x.shift) := by
    rw [← Nat.mul_assoc, same, Nat.mul_assoc]
  obtain ⟨low, high, odd⟩ := covers
  refine ⟨(le_ratio_iff hstep hstep' hsame).mp low, (ratio_le_iff hstep hstep' hsame).mp high,
    fun h => ?_⟩
  obtain ⟨above, below⟩ := odd h
  rw [← Nat.not_le, ratio_le_iff hstep hstep' hsame, Nat.not_le] at above
  rw [← Nat.not_le, le_ratio_iff hstep hstep' hsame, Nat.not_le] at below
  exact ⟨above, below⟩

end Ratio

end Double

namespace Binary64

open Double

variable {x : Double} {numerator denominator : Nat}

section Shift

variable {quotient k : Nat}

theorem shift_le_of_lt (h : quotient < 2 ^ (k + 53)) : Nat.log2 quotient - 52 ≤ k := by
  rcases Nat.eq_zero_or_pos quotient with rfl | positive
  · simp
  · have hlog := (Nat.log2_lt (Nat.ne_of_gt positive)).mpr h
    omega

theorem le_shift_of_le (h : 2 ^ (k + 52) ≤ quotient) : k ≤ Nat.log2 quotient - 52 := by
  have hne : quotient ≠ 0 := Nat.ne_of_gt (Nat.lt_of_lt_of_le (Nat.pow_pos (by decide)) h)
  have hlog := (Nat.le_log2 hne).mpr h
  omega

theorem lt_of_shift (h : Nat.log2 quotient - 52 ≤ k) : quotient < 2 ^ (k + 53) := by
  calc quotient < 2 ^ (Nat.log2 quotient + 1) := Nat.lt_log2_self
    _ ≤ 2 ^ (k + 53) := Nat.pow_le_pow_right (by decide) (by omega)

end Shift

/-- Counted in steps of the number itself, a ratio in its interval is nearest to its digits. -/
theorem nearestEven_of_within {scaled step m gap : Nat} (positive : 0 < step) (most : gap ≤ 2)
    (low : (4 * m - gap) * step ≤ 4 * scaled) (high : 4 * scaled ≤ (4 * m + 2) * step)
    (odd : m % 2 = 1 → (4 * m - gap) * step < 4 * scaled ∧ 4 * scaled < (4 * m + 2) * step) :
    nearestEven scaled step = m := by
  obtain ⟨k, hk⟩ : ∃ k, 4 * m - gap = k := ⟨_, rfl⟩
  have hlow : 4 * m * step ≤ (k + 2) * step := Nat.mul_le_mul_right _ (by omega)
  rw [hk] at low odd
  apply nearestEven_eq positive
  · nlinarith
  · nlinarith
  · intro h
    obtain ⟨above, below⟩ := odd h
    constructor
    · nlinarith
    · nlinarith

/-- Below a power of two the steps are half as large, and the ratio is nearest to the power. -/
theorem nearestEven_below_binade {scaled step : Nat} (positive : 0 < step)
    (low : (4 * binade - 1) * (step * 2) ≤ 4 * scaled) (below : scaled < binade * (step * 2)) :
    nearestEven scaled step = 2 * binade := by
  have hone : 4 * binade = 4 * binade - 1 + 1 := by decide
  have hlow : 4 * binade * (step * 2) ≤ 4 * scaled + step * 2 := by
    rw [hone, Nat.add_mul, Nat.one_mul]
    exact Nat.add_le_add_right low _
  apply nearestEven_eq positive
  · nlinarith
  · nlinarith
  · intro h
    exact absurd h (by decide)

section Interval

variable {scaled : Nat} (positive : 0 < denominator)
include positive

theorem shift_le_of_high
    (high : 4 * scaled ≤ (4 * x.significand + 2) * (denominator * 2 ^ x.shift)) :
    Nat.log2 (scaled / denominator) - 52 ≤ x.shift := by
  have hsignificand := x.significand_lt
  have hstep : 0 < denominator * 2 ^ x.shift := Nat.mul_pos positive (Nat.pow_pos (by decide))
  have hbinade : 2 ^ 53 = 2 * binade := rfl
  apply shift_le_of_lt
  rw [Nat.div_lt_iff_lt_mul positive, Nat.pow_add, hbinade]
  nlinarith

/-- If a ratio in the interval is rounded in smaller steps than the number has, it is below the
number, which is a power of two. -/
theorem below_of_shift_lt
    (low : (4 * x.significand - x.gap) * (denominator * 2 ^ x.shift) ≤ 4 * scaled)
    (smaller : Nat.log2 (scaled / denominator) - 52 < x.shift) :
    ∃ shift, x.shift = shift + 1 ∧ x.significand = binade ∧
      Nat.log2 (scaled / denominator) - 52 = shift ∧
      (4 * binade - 1) * (denominator * 2 ^ shift * 2) ≤ 4 * scaled ∧
      scaled < binade * (denominator * 2 ^ shift * 2) := by
  obtain ⟨shift, hshift⟩ : ∃ shift, x.shift = shift + 1 :=
    Nat.exists_eq_succ_of_ne_zero (by omega)
  have hleast := x.binade_le_significand (by omega)
  have hgap := x.gap_le
  have hstep : denominator * 2 ^ x.shift = denominator * 2 ^ shift * 2 := by
    rw [hshift, Nat.pow_succ, Nat.mul_assoc]
  have hpos : 0 < denominator * 2 ^ shift := Nat.mul_pos positive (Nat.pow_pos (by decide))
  have hbelow : scaled < binade * (denominator * 2 ^ shift * 2) := by
    have hle : Nat.log2 (scaled / denominator) - 52 ≤ shift := by omega
    have hquotient := lt_of_shift hle
    have hbinade : 2 ^ 53 = binade * 2 := rfl
    rw [Nat.div_lt_iff_lt_mul positive, Nat.pow_add, hbinade] at hquotient
    linarith
  rw [hstep] at low
  have hpower : x.significand = binade := by
    by_contra hne
    have hlow : 4 * binade * (denominator * 2 ^ shift * 2) ≤ 4 * scaled :=
      Nat.le_trans (Nat.mul_le_mul_right _ (by omega)) low
    linarith
  have hone : x.gap = 1 := by
    rw [gap, if_pos ⟨hpower, by omega⟩]
  rw [hpower, hone] at low
  have hge : shift ≤ Nat.log2 (scaled / denominator) - 52 := by
    have hbinade : 2 ^ 52 = binade := rfl
    have hfour : 4 * binade ≤ (4 * binade - 1) * 2 := by decide
    have hscale := Nat.mul_le_mul_right (denominator * 2 ^ shift) hfour
    apply le_shift_of_le
    rw [Nat.le_div_iff_mul_le positive, Nat.pow_add, hbinade]
    linarith
  exact ⟨shift, hshift, hpower, by omega, low, hbelow⟩

end Interval

/-- A ratio in the interval of a number is rounded to it. -/
theorem ofRatio_of_covers (negative : Bool) (positive : 0 < denominator)
    (covers : x.Covers numerator denominator) :
    ofRatio negative numerator denominator = .finite ⟨negative, x.place, x.place_lt⟩ := by
  obtain ⟨low, high, odd⟩ := covers
  have hgap := x.gap_le
  obtain ⟨scaled, hscaled⟩ : ∃ scaled, numerator * unitsPerOne = scaled := ⟨_, rfl⟩
  have hvalue : 4 * unitsPerOne * numerator = 4 * scaled := by
    rw [← hscaled]
    ring
  simp only [hvalue] at low high odd
  have hplace : (Nat.log2 (scaled / denominator) - 52) * binade +
      nearestEven scaled (denominator * 2 ^ (Nat.log2 (scaled / denominator) - 52)) = x.place := by
    rw [x.place_eq]
    rcases Nat.lt_or_eq_of_le (shift_le_of_high positive high) with smaller | hshift
    · obtain ⟨shift, hshift, hpower, heq, low, below⟩ := below_of_shift_lt positive low smaller
      have hpos : 0 < denominator * 2 ^ shift := Nat.mul_pos positive (Nat.pow_pos (by decide))
      rw [heq, nearestEven_below_binade hpos low below, hpower, hshift]
      ring
    · have hstep : 0 < denominator * 2 ^ x.shift := Nat.mul_pos positive (Nat.pow_pos (by decide))
      rw [hshift, nearestEven_of_within hstep hgap low high odd]
  have hrounded : ofRatio negative numerator denominator = ofPlace negative x.place := by
    unfold ofRatio
    dsimp only
    rw [hscaled]
    exact congrArg (ofPlace negative) hplace
  rw [hrounded, ofPlace_finite x.place_lt]

end Binary64

namespace Double

variable {x : Double}

/-- The number is not below the power of ten of its decade. -/
theorem decade_le_magnitude (h : x.isZero = false) {a b : Nat} (decade : (a : Int) - b = x.decade) :
    unitsPerOne * 10 ^ a ≤ x.magnitude * 10 ^ b := by
  unfold Double.decade at decade
  split at decade
  · next large =>
      have hquotient : 0 < x.magnitude / unitsPerOne := Nat.div_pos large unitsPerOne_pos
      obtain ⟨k, hk⟩ : ∃ k, digitCount (x.magnitude / unitsPerOne) = k + 1 :=
        Nat.exists_eq_succ_of_ne_zero (Nat.ne_of_gt Nat.length_toDigits_pos)
      have ha : a = k + b := by omega
      have hle : unitsPerOne * 10 ^ k ≤ x.magnitude := by
        rw [Nat.mul_comm]
        exact (Nat.le_div_iff_mul_le unitsPerOne_pos).mp (pow_digitCount_le hquotient hk)
      rw [ha, Nat.pow_add, ← Nat.mul_assoc]
      exact Nat.mul_le_mul_right _ hle
  · next small =>
      have hpos := magnitude_pos h
      have hb : b = digitCount ((unitsPerOne - 1) / x.magnitude) + a := by omega
      have hle : unitsPerOne ≤ x.magnitude * 10 ^ digitCount ((unitsPerOne - 1) / x.magnitude) := by
        have hlt := (Nat.div_lt_iff_lt_mul hpos).mp
          (lt_pow_digitCount ((unitsPerOne - 1) / x.magnitude))
        rw [Nat.mul_comm]
        omega
      rw [hb, Nat.pow_add, ← Nat.mul_assoc]
      exact Nat.mul_le_mul_right _ hle

/-- What is named on a grid lies in the interval. -/
theorem inside_iff_covers {count n : Nat} :
    x.inside count n = true ↔
      x.Covers (n * 10 ^ (x.gridPower count).toNat) (10 ^ (-x.gridPower count).toNat) := by
  have hscale : x.binaryScale count = 10 ^ (-x.gridPower count).toNat * 2 ^ x.shift :=
    Nat.mul_comm _ _
  have hvalue : n * x.gridStep count =
      4 * unitsPerOne * (n * 10 ^ (x.gridPower count).toNat) := by
    unfold gridStep
    ring
  unfold inside Covers gap
  dsimp only
  rw [← hscale, ← hvalue]
  split
  · next even =>
      have hodd : ¬ x.significand % 2 = 1 := by omega
      simp [hodd]
  · next odd =>
      have hodd : x.significand % 2 = 1 := by omega
      simp only [hodd, Bool.and_eq_true, decide_eq_true_eq, true_implies]
      exact ⟨fun ⟨above, below⟩ => ⟨Nat.le_of_lt above, Nat.le_of_lt below, above, below⟩,
        fun h => h.2.2⟩

/-- With seventeen digits the grid is finer than the interval. -/
theorem gridStep_lt (h : x.isZero = false) :
    x.gridStep 17 < (x.gap + 2) * x.binaryScale 17 := by
  have hscale : 0 < x.binaryScale 17 :=
    Nat.mul_pos (Nat.pow_pos (by decide)) (Nat.pow_pos (by decide))
  have hgrid : x.gridStep 17 * 10 ^ 16 ≤ 4 * x.significand * x.binaryScale 17 := by
    have hle := decade_le_magnitude h (a := (x.gridPower 17).toNat + 16)
      (b := (-x.gridPower 17).toNat) (by unfold gridPower; omega)
    calc x.gridStep 17 * 10 ^ 16
        = 4 * (unitsPerOne * 10 ^ ((x.gridPower 17).toNat + 16)) := by
          unfold gridStep
          rw [Nat.pow_add]
          ring
      _ ≤ 4 * (x.magnitude * 10 ^ (-x.gridPower 17).toNat) := Nat.mul_le_mul_left _ hle
      _ = 4 * x.significand * x.binaryScale 17 := by
          unfold binaryScale
          show 4 * (x.significand * 2 ^ x.shift * _) = _
          ring
  have hwidth : 4 * x.significand < (x.gap + 2) * 10 ^ 16 := by
    have hsignificand := x.significand_lt
    have hbinade : binade = 4503599627370496 := rfl
    unfold gap
    split <;> omega
  have hlt : x.gridStep 17 * 10 ^ 16 < (x.gap + 2) * x.binaryScale 17 * 10 ^ 16 := by
    calc x.gridStep 17 * 10 ^ 16 ≤ 4 * x.significand * x.binaryScale 17 := hgrid
      _ < (x.gap + 2) * 10 ^ 16 * x.binaryScale 17 := Nat.mul_lt_mul_of_pos_right hwidth hscale
      _ = (x.gap + 2) * x.binaryScale 17 * 10 ^ 16 := by ring
  exact Nat.lt_of_mul_lt_mul_right hlt

section Outside

variable {count n : Nat}

/-- A point of the grid that is not in the interval is on one side of it. -/
theorem below_or_above (outside : x.inside count n = false) :
    n * x.gridStep count ≤ (4 * x.significand - x.gap) * x.binaryScale count ∨
      (4 * x.significand + 2) * x.binaryScale count ≤ n * x.gridStep count := by
  by_contra between
  obtain ⟨above, below⟩ := not_or.mp between
  have inside : x.inside count n = true := by
    unfold Double.inside
    dsimp only
    split
    · simp only [Bool.and_eq_true, decide_eq_true_eq]
      exact ⟨Nat.le_of_not_le above, Nat.le_of_not_le below⟩
    · simp only [Bool.and_eq_true, decide_eq_true_eq]
      exact ⟨Nat.lt_of_not_le above, Nat.lt_of_not_le below⟩
  rw [inside] at outside
  cases outside

/-- Between two neighbours on the grid that are on either side there is room for the interval. -/
theorem width_le {low gap step scale : Nat} (lower : n * step ≤ low * scale)
    (upper : (low + gap + 2) * scale ≤ (n + 1) * step) : (gap + 2) * scale ≤ step := by
  nlinarith

theorem named?_eq_none {tie : Tie} (h : x.named? tie count = none) :
    x.inside count (x.below count) = false ∧ x.inside count (x.below count + 1) = false := by
  unfold named? at h
  dsimp only at h
  split at h
  · split at h
    · cases h
    · split at h
      · cases h
      · split at h <;> cases h
  · cases h
  · cases h
  · next lower upper => exact ⟨lower, upper⟩

end Outside

/-- Seventeen digits name every number. -/
theorem named?_seventeen (h : x.isZero = false) (tie : Tie) : x.named? tie 17 ≠ none := by
  intro unnamed
  obtain ⟨lower, upper⟩ := named?_eq_none unnamed
  have hsignificand := significand_pos h
  have hstep : 0 < x.gridStep 17 :=
    Nat.mul_pos (Nat.mul_pos (by decide) unitsPerOne_pos) (Nat.pow_pos (by decide))
  have hscale : 0 < x.binaryScale 17 :=
    Nat.mul_pos (Nat.pow_pos (by decide)) (Nat.pow_pos (by decide))
  have hbelow : x.below 17 * x.gridStep 17 ≤ 4 * x.significand * x.binaryScale 17 :=
    Nat.div_mul_le_self _ _
  have habove : 4 * x.significand * x.binaryScale 17 < (x.below 17 + 1) * x.gridStep 17 :=
    Nat.lt_mul_of_div_lt (Nat.lt_succ_self _) hstep
  have hlow : (4 * x.significand - x.gap) * x.binaryScale 17 ≤
      4 * x.significand * x.binaryScale 17 := Nat.mul_le_mul_right _ (Nat.sub_le _ _)
  have hhigh : 4 * x.significand * x.binaryScale 17 <
      (4 * x.significand + 2) * x.binaryScale 17 := Nat.mul_lt_mul_of_pos_right (by omega) hscale
  have hlower := (below_or_above lower).resolve_right fun h =>
    Nat.not_le.mpr hhigh (Nat.le_trans h hbelow)
  have hupper := (below_or_above upper).resolve_left fun h =>
    Nat.not_lt.mpr (Nat.le_trans h hlow) habove
  -- Both ends of the interval are between the two points, but it is wider than one step.
  have hgap : x.gap ≤ 4 * x.significand := Nat.le_trans x.gap_le (by omega)
  have hsplit : 4 * x.significand + 2 = 4 * x.significand - x.gap + x.gap + 2 := by omega
  rw [hsplit] at hupper
  exact absurd (gridStep_lt h) (Nat.not_lt.mpr (width_le hlower hupper))

/-- The shortest decimal is one that names the number. -/
theorem shortest_named (h : x.isZero = false) (tie : Tie) :
    ∃ count n, x.inside count n = true ∧ x.shortest tie = x.onGrid count n := by
  unfold shortest
  simp only [h, Bool.false_eq_true, if_false]
  cases hfound : (List.range 17).findSome? fun n => x.named? tie (n + 1) with
  | none =>
      have unnamed := List.findSome?_eq_none_iff.mp hfound 16 (by decide)
      exact absurd unnamed (named?_seventeen h tie)
  | some d =>
      obtain ⟨k, -, named⟩ := List.exists_of_findSome?_eq_some hfound
      obtain ⟨n, -, inside, hd⟩ := named?_onGrid h named
      exact ⟨k + 1, n, inside, hd⟩

/-- The shortest decimal is in the interval of the number. -/
theorem covers_shortest (x : Double) (tie : Tie) :
    x.Covers ((x.shortest tie).digits * 10 ^ (x.shortest tie).exponent.toNat)
      (10 ^ (-(x.shortest tie).exponent).toNat) := by
  cases h : x.isZero with
  | true =>
      have hshortest : x.shortest tie = ⟨0, 0⟩ := if_pos h
      have hplace : x.place = 0 := by simpa [isZero] using h
      have hsignificand : x.significand = 0 := by
        rw [significand, hplace, if_pos (by decide)]
      rw [hshortest]
      unfold Covers
      simp [hsignificand]
  | false =>
      obtain ⟨count, n, inside, hd⟩ := shortest_named h tie
      refine (inside_iff_covers.mp inside).congr (Nat.pow_pos (by decide))
        (Nat.pow_pos (by decide)) ?_
      rw [hd]
      unfold onGrid
      split
      · next hn =>
          -- The power of ten behind the grid, written with a single digit.
          have hpower : count + (x.gridPower count).toNat + (-(x.gridPower count + count)).toNat =
              (x.gridPower count + count).toNat + (-x.gridPower count).toNat := by omega
          rw [hn, Nat.one_mul, ← Nat.pow_add, ← Nat.pow_add, ← Nat.pow_add, hpower]
      · rfl

end Double

end DocViews
