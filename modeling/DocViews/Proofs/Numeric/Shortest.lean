import DocViews.Numeric.Shortest
import DocViews.Proofs.Numeric.Rounding

/-!
The decimals that binary64 numbers are shown as. They have seventeen digits at most and lie
within half a step of the number they name. So each is read again as a finite number, also
near the largest one, where the reader has hardly room to round three times.
-/

namespace DocViews

open Double

theorem lt_pow_digitCount (n : Nat) : n < 10 ^ digitCount n :=
  (Nat.length_toDigits_le_iff (by decide) Nat.length_toDigits_pos).mp (Nat.le_refl _)

theorem pow_digitCount_le {n k : Nat} (positive : 0 < n) (h : digitCount n = k + 1) :
    10 ^ k ≤ n := by
  rcases Nat.eq_zero_or_pos k with rfl | hk
  · exact positive
  · have hmore : ¬ digitCount n ≤ k := by omega
    have hlt : ¬ n < 10 ^ k := fun hlt =>
      hmore ((Nat.length_toDigits_le_iff (by decide) hk).mpr hlt)
    exact Nat.le_of_not_lt hlt

namespace Double

variable {x : Double}

theorem significand_pos (h : x.isZero = false) : 0 < x.significand := by
  have hplace : x.place ≠ 0 := by simpa [isZero] using h
  have hbinade : 0 < binade := by decide
  unfold significand
  split <;> omega

theorem magnitude_pos (h : x.isZero = false) : 0 < x.magnitude :=
  Nat.mul_pos (significand_pos h) (Nat.pow_pos (by decide))

/-- The number is below the next power of ten after its decade. -/
theorem magnitude_lt_decade (h : x.isZero = false) {a b : Nat}
    (next : (a : Int) - b = x.decade + 1) : x.magnitude * 10 ^ b < unitsPerOne * 10 ^ a := by
  unfold decade at next
  split at next
  · next large =>
      have ha : a = digitCount (x.magnitude / unitsPerOne) + b := by omega
      have hlt : x.magnitude < unitsPerOne * 10 ^ digitCount (x.magnitude / unitsPerOne) := by
        rw [Nat.mul_comm]
        exact (Nat.div_lt_iff_lt_mul unitsPerOne_pos).mp (lt_pow_digitCount _)
      rw [ha, Nat.pow_add, ← Nat.mul_assoc]
      exact Nat.mul_lt_mul_of_pos_right hlt (Nat.pow_pos (by decide))
  · next small =>
      have hpos := magnitude_pos h
      have hquotient : 0 < (unitsPerOne - 1) / x.magnitude := Nat.div_pos (by omega) hpos
      obtain ⟨k, hk⟩ : ∃ k, digitCount ((unitsPerOne - 1) / x.magnitude) = k + 1 :=
        Nat.exists_eq_succ_of_ne_zero (Nat.ne_of_gt Nat.length_toDigits_pos)
      have hb : b = k + a := by omega
      have hle : 10 ^ k * x.magnitude ≤ unitsPerOne - 1 :=
        (Nat.le_div_iff_mul_le hpos).mp (pow_digitCount_le hquotient hk)
      have hlt : x.magnitude * 10 ^ k < unitsPerOne := by
        rw [Nat.mul_comm]
        have := unitsPerOne_pos
        omega
      rw [hb, Nat.pow_add, ← Nat.mul_assoc]
      exact Nat.mul_lt_mul_of_pos_right hlt (Nat.pow_pos (by decide))

/-- The power of ten of the grid with so many digits. -/
def gridPower (x : Double) (count : Nat) : Int := x.decade - count + 1

/-- The scale on which a number is compared with this grid. -/
def binaryScale (x : Double) (count : Nat) : Nat :=
  2 ^ x.shift * 10 ^ (-x.gridPower count).toNat

/-- One step of this grid on the same scale. -/
def gridStep (x : Double) (count : Nat) : Nat :=
  4 * unitsPerOne * 10 ^ (x.gridPower count).toNat

theorem below_lt (h : x.isZero = false) (count : Nat) :
    4 * x.significand * x.binaryScale count / x.gridStep count < 10 ^ count := by
  have hstep : 0 < x.gridStep count :=
    Nat.mul_pos (Nat.mul_pos (by decide) unitsPerOne_pos) (Nat.pow_pos (by decide))
  rw [Nat.div_lt_iff_lt_mul hstep]
  have hlt : x.magnitude * 10 ^ (-x.gridPower count).toNat <
      unitsPerOne * 10 ^ (count + (x.gridPower count).toNat) := by
    apply magnitude_lt_decade h
    unfold gridPower
    omega
  calc 4 * x.significand * x.binaryScale count
      = 4 * (x.magnitude * 10 ^ (-x.gridPower count).toNat) := by
        unfold binaryScale
        show _ = 4 * (x.significand * 2 ^ x.shift * _)
        ring
    _ < 4 * (unitsPerOne * 10 ^ (count + (x.gridPower count).toNat)) :=
        Nat.mul_lt_mul_of_pos_left hlt (by decide)
    _ = 10 ^ count * x.gridStep count := by
        unfold gridStep
        rw [Nat.pow_add]
        ring

/-- How many steps of the grid lie below the number. -/
def below (x : Double) (count : Nat) : Nat :=
  4 * x.significand * x.binaryScale count / x.gridStep count

/-- Whether so many steps of the grid lie in the interval of reals that round to the number. -/
def inside (x : Double) (count n : Nat) : Bool :=
  let low := (4 * x.significand - if x.significand = binade ∧ 0 < x.shift then 1 else 2) *
    x.binaryScale count
  let high := (4 * x.significand + 2) * x.binaryScale count
  if x.significand % 2 = 0 then low ≤ n * x.gridStep count && n * x.gridStep count ≤ high
  else low < n * x.gridStep count && n * x.gridStep count < high

/-- The decimal of so many steps of the grid. -/
def onGrid (x : Double) (count n : Nat) : Decimal :=
  if n = 10 ^ count then ⟨1, x.gridPower count + count⟩ else ⟨n, x.gridPower count⟩

theorem inside_bounds (h : x.isZero = false) {count n : Nat} (inside : x.inside count n = true) :
    0 < n ∧ n * x.gridStep count ≤ (4 * x.significand + 2) * x.binaryScale count := by
  have hsignificand := significand_pos h
  have hscale : 0 < x.binaryScale count :=
    Nat.mul_pos (Nat.pow_pos (by decide)) (Nat.pow_pos (by decide))
  unfold Double.inside at inside
  dsimp only at inside
  generalize hgap : (if x.significand = binade ∧ 0 < x.shift then 1 else 2) = gap at inside
  have hlow : 0 < (4 * x.significand - gap) * x.binaryScale count := by
    apply Nat.mul_pos _ hscale
    split at hgap <;> omega
  have hbounds : (4 * x.significand - gap) * x.binaryScale count ≤ n * x.gridStep count ∧
      n * x.gridStep count ≤ (4 * x.significand + 2) * x.binaryScale count := by
    split at inside
    · simpa using inside
    · simp only [Bool.and_eq_true, decide_eq_true_eq] at inside
      exact ⟨Nat.le_of_lt inside.1, Nat.le_of_lt inside.2⟩
  refine ⟨?_, hbounds.2⟩
  apply Nat.pos_of_ne_zero
  rintro rfl
  omega

/-- A number is named by one of the two neighbours of its value. -/
theorem named?_onGrid {tie : Tie} {count : Nat} {d : Decimal} (h : x.isZero = false)
    (named : x.named? tie count = some d) :
    ∃ n, n ≤ 10 ^ count ∧ x.inside count n = true ∧ d = x.onGrid count n := by
  have hbelow : x.below count < 10 ^ count := below_lt h count
  have hlower : (⟨x.below count, x.gridPower count⟩ : Decimal) = x.onGrid count (x.below count) :=
    (if_neg (Nat.ne_of_lt hbelow)).symm
  have hneighbour : (d = x.onGrid count (x.below count) ∧ x.inside count (x.below count) = true) ∨
      (d = x.onGrid count (x.below count + 1) ∧ x.inside count (x.below count + 1) = true) := by
    unfold named? at named
    dsimp only at named
    split at named
    · next lower upper =>
        split at named
        · exact .inl ⟨(Option.some.inj named).symm.trans hlower, lower⟩
        · split at named
          · exact .inr ⟨(Option.some.inj named).symm, upper⟩
          · split at named
            · exact .inl ⟨(Option.some.inj named).symm.trans hlower, lower⟩
            · exact .inr ⟨(Option.some.inj named).symm, upper⟩
    · next lower _ => exact .inl ⟨(Option.some.inj named).symm.trans hlower, lower⟩
    · next _ upper => exact .inr ⟨(Option.some.inj named).symm, upper⟩
    · cases named
  rcases hneighbour with ⟨hd, inside⟩ | ⟨hd, inside⟩
  · exact ⟨_, Nat.le_of_lt hbelow, inside, hd⟩
  · exact ⟨_, hbelow, inside, hd⟩

/-- The fewest digits are seventeen at most. -/
theorem shortest_onGrid (tie : Tie) (x : Double) :
    x.shortest tie = ⟨0, 0⟩ ∨ x.isZero = false ∧ ∃ count n, count ≤ 17 ∧ n ≤ 10 ^ count ∧
      x.inside count n = true ∧ x.shortest tie = x.onGrid count n := by
  unfold shortest
  cases h : x.isZero with
  | true => exact .inl rfl
  | false =>
      simp only [Bool.false_eq_true, if_false]
      cases hfound : (List.range 17).findSome? fun n => x.named? tie (n + 1) with
      | none => exact .inl rfl
      | some d =>
          obtain ⟨k, hk, named⟩ := List.exists_of_findSome?_eq_some hfound
          obtain ⟨n, hn, inside, hd⟩ := named?_onGrid h named
          have hcount := List.mem_range.mp hk
          exact .inr ⟨trivial, k + 1, n, by omega, hn, inside, hd⟩

theorem shortest_digits_le (tie : Tie) (x : Double) : (x.shortest tie).digits ≤ 10 ^ 17 := by
  rcases shortest_onGrid tie x with hzero | ⟨-, count, n, hcount, hn, -, hd⟩
  · rw [hzero]
    exact Nat.zero_le _
  · have hmost : 10 ^ count ≤ 10 ^ 17 := Nat.pow_le_pow_right (by decide) hcount
    rw [hd]
    unfold onGrid
    split
    · exact Nat.one_le_pow _ _ (by decide)
    · exact Nat.le_trans hn hmost

theorem shortest_of_digits_eq_zero {tie : Tie} (h : (x.shortest tie).digits = 0) :
    x.shortest tie = ⟨0, 0⟩ := by
  rcases shortest_onGrid tie x with hzero | ⟨hx, count, n, -, -, inside, hd⟩
  · exact hzero
  · have hn := (inside_bounds hx inside).1
    rw [hd] at h
    unfold onGrid at h
    split at h
    · cases h
    · exact absurd h (Nat.ne_of_gt hn)

theorem decade_bounds (x : Double) : -1074 ≤ x.decade ∧ x.decade ≤ 308 := by
  unfold decade
  split
  · next large =>
      have hquotient : x.magnitude / unitsPerOne < limit := by
        apply Nat.div_lt_of_lt_mul
        rw [Nat.mul_comm, ← overflow_eq]
        exact x.magnitude_lt
      have hlimit : ∀ last, 309 = last → limit < 10 ^ last := by
        rintro _ rfl
        decide +kernel
      obtain ⟨last, hlast⟩ : ∃ last, 309 = last := ⟨_, rfl⟩
      have hcount : digitCount (x.magnitude / unitsPerOne) ≤ last :=
        (Nat.length_toDigits_le_iff (by decide) (by omega)).mpr
          (Nat.lt_trans hquotient (hlimit last hlast))
      have hpos : 0 < digitCount (x.magnitude / unitsPerOne) := Nat.length_toDigits_pos
      omega
  · next small =>
      have hpoint := pointShift_eq
      have hquotient : (unitsPerOne - 1) / x.magnitude < 10 ^ pointShift := by
        calc (unitsPerOne - 1) / x.magnitude ≤ unitsPerOne - 1 := Nat.div_le_self ..
          _ < unitsPerOne := Nat.sub_lt unitsPerOne_pos (by decide)
          _ = 2 ^ pointShift := unitsPerOne_eq
          _ ≤ 10 ^ pointShift := Nat.pow_le_pow_left (by decide) _
      have hcount : digitCount ((unitsPerOne - 1) / x.magnitude) ≤ pointShift :=
        (Nat.length_toDigits_le_iff (by decide) (by omega)).mpr hquotient
      omega

theorem shortest_exponent_bounds (tie : Tie) (x : Double) :
    -2000 ≤ (x.shortest tie).exponent ∧ (x.shortest tie).exponent ≤ 2000 := by
  have hdecade := x.decade_bounds
  rcases shortest_onGrid tie x with hzero | ⟨-, count, n, hcount, -, -, hd⟩
  · rw [hzero]
    decide
  · rw [hd]
    unfold onGrid gridPower
    split <;> simp only <;> omega

/-- A decimal with a large power of ten is half a binary step above its number at most. -/
theorem shortest_le {tie : Tie} {power : Nat} (h : (x.shortest tie).exponent = power)
    (large : 17 < power) :
    (x.shortest tie).digits * 10 ^ power * (4 * unitsPerOne) ≤
      (4 * x.significand + 2) * 2 ^ x.shift := by
  rcases shortest_onGrid tie x with hzero | ⟨hx, count, n, hcount, -, inside, hd⟩
  · rw [hzero] at h
    simp only at h
    omega
  · have hbound := (inside_bounds hx inside).2
    -- The exponent is that of the grid, or that of the step on which the digits end.
    have hexponent : ((x.shortest tie).exponent = x.gridPower count + count ∧
          (x.shortest tie).digits = 1 ∧ n = 10 ^ count) ∨
        ((x.shortest tie).exponent = x.gridPower count ∧ (x.shortest tie).digits = n) := by
      rw [hd]
      unfold onGrid
      split
      · next hn => exact .inl ⟨rfl, rfl, hn⟩
      · exact .inr ⟨rfl, rfl⟩
    obtain ⟨grid, hgrid⟩ : ∃ grid : Nat, x.gridPower count = grid := by
      refine ⟨(x.gridPower count).toNat, ?_⟩
      omega
    have hscale : x.binaryScale count = 2 ^ x.shift := by
      have hzero : (-x.gridPower count).toNat = 0 := by omega
      unfold binaryScale
      rw [hzero, Nat.pow_zero, Nat.mul_one]
    have hstep : x.gridStep count = 10 ^ grid * (4 * unitsPerOne) := by
      have hnat : (x.gridPower count).toNat = grid := by omega
      unfold gridStep
      rw [hnat, Nat.mul_comm]
    have hvalue : (x.shortest tie).digits * 10 ^ power = n * 10 ^ grid := by
      rcases hexponent with ⟨hpower, hone, hn⟩ | ⟨hpower, hdigits⟩
      · have hsum : power = count + grid := by omega
        rw [hone, hn, hsum, Nat.pow_add, Nat.one_mul]
      · have hsame : power = grid := by omega
        rw [hdigits, hsame]
    rw [hvalue, Nat.mul_assoc, ← hstep, ← hscale]
    exact hbound

/-- All numbers but the two largest leave room above them. -/
theorem high_le (h : x.place < places - 2) :
    (4 * x.significand + 2) * 2 ^ x.shift ≤ (8 * binade - 10) * 2 ^ topShift := by
  have htop := topShift_eq
  have hbinade : binade = 4503599627370496 := rfl
  have hplaces : places = 2047 * binade := rfl
  rcases Nat.lt_or_ge x.shift topShift with lower | upper
  · have hhalf : 2 ^ (x.shift + 1) ≤ 2 ^ topShift := Nat.pow_le_pow_right (by decide) lower
    have hsignificand : 4 * x.significand + 2 ≤ (8 * binade - 10) * 2 := by
      have := x.significand_lt
      omega
    calc (4 * x.significand + 2) * 2 ^ x.shift ≤ (8 * binade - 10) * 2 * 2 ^ x.shift :=
          Nat.mul_le_mul_right _ hsignificand
      _ = (8 * binade - 10) * 2 ^ (x.shift + 1) := by rw [Nat.pow_succ]; ring
      _ ≤ (8 * binade - 10) * 2 ^ topShift := Nat.mul_le_mul_left _ hhalf
  · have hlast : 2046 ≤ x.place / binade := by
      unfold shift at upper
      omega
    have hsplit := Nat.div_add_mod x.place binade
    have hsignificand : x.significand + 3 ≤ 2 * binade := by
      have hquotient : x.place / binade = 2046 := by
        have := x.shift_le
        unfold shift at this
        omega
      unfold significand
      rw [hquotient] at hsplit
      split <;> omega
    have hhigh : 4 * x.significand + 2 ≤ 8 * binade - 10 := by omega
    exact Nat.mul_le_mul hhigh (Nat.pow_le_pow_right (by decide) x.shift_le)

end Double

namespace Json

open Double

variable {x : Double}

def isFinite : Binary64 → Bool
  | .finite _ => true
  | _ => false

theorem eq_finite {y : Binary64} (h : isFinite y = true) : ∃ z, y = .finite z := by
  cases y with
  | finite z => exact ⟨z, rfl⟩
  | infinity negative => cases h
  | nan => cases h

/-- For the two largest numbers the bounds do not suffice, but their digits do. -/
theorem scaled_largest (h : places - 2 ≤ x.place) :
    ∃ z, scaled (x.shortest .even).digits (x.shortest .even).exponent = .finite z := by
  apply eq_finite
  obtain ⟨negative, place, hlt⟩ := x
  have hcases : place = places - 1 ∨ place = places - 2 := by
    simp only at h
    omega
  rcases hcases with rfl | rfl <;> cases negative <;> decide +kernel +revert

/-- With as many digits and powers of ten as this, a decimal is far from too large. -/
theorem room_below {digits power : Nat} (few : digits ≤ 10 ^ 17) (small : power ≤ 288) :
    digits * 10 ^ power * (2 * binade + 1) ^ 2 < limit * (2 * binade) ^ 2 := by
  have hlast : ∀ last, 288 = last →
      10 ^ 17 * 10 ^ last * (2 * binade + 1) ^ 2 < limit * (2 * binade) ^ 2 := by
    rintro _ rfl
    decide +kernel
  obtain ⟨last, h⟩ : ∃ last, 288 = last := ⟨_, rfl⟩
  have hpower : 10 ^ power ≤ 10 ^ last := Nat.pow_le_pow_right (by decide) (h ▸ small)
  exact Nat.lt_of_le_of_lt (Nat.mul_le_mul_right _ (Nat.mul_le_mul few hpower)) (hlast last h)

/-- What is not above any number but the two largest leaves room to round three times. -/
theorem room_above {value : Nat}
    (h : value * (4 * unitsPerOne) ≤ (8 * binade - 10) * 2 ^ topShift) :
    value * (2 * binade + 1) ^ 2 < limit * (2 * binade) ^ 2 ∧ ∀ k, 309 ≤ k → value < 10 ^ k := by
  generalize hone : 2 ^ (topShift - 1 - pointShift) = one
  have htopShift : 2 ^ topShift = one * 2 * unitsPerOne := by
    have htop := topShift_eq
    have hpoint := pointShift_eq
    have hsum : topShift = topShift - 1 - pointShift + 1 + pointShift := by omega
    rw [unitsPerOne_eq, ← hone, ← Nat.pow_succ, ← Nat.pow_add, ← hsum]
  have hvalue : value * 4 ≤ (8 * binade - 10) * (one * 2) := by
    rw [htopShift, ← Nat.mul_assoc, ← Nat.mul_assoc] at h
    exact Nat.le_of_mul_le_mul_right h unitsPerOne_pos
  have hhalf : (8 * binade - 10) * (one * 2) = (4 * binade - 5) * one * 4 := by
    have hbinade : 8 * binade - 10 = (4 * binade - 5) * 2 := by decide
    rw [hbinade]
    ring
  have hbelow : value ≤ (4 * binade - 5) * one := by omega
  have hpos : 0 < one := by
    rw [← hone]
    exact Nat.pow_pos (by decide)
  constructor
  · have hsquare : (4 * binade - 5) * (2 * binade + 1) ^ 2 < (4 * binade - 1) * (2 * binade) ^ 2 := by
      decide
    calc value * (2 * binade + 1) ^ 2 ≤ (4 * binade - 5) * one * (2 * binade + 1) ^ 2 :=
          Nat.mul_le_mul_right _ hbelow
      _ = (4 * binade - 5) * (2 * binade + 1) ^ 2 * one := by ring
      _ < (4 * binade - 1) * (2 * binade) ^ 2 * one := Nat.mul_lt_mul_of_pos_right hsquare hpos
      _ = limit * (2 * binade) ^ 2 := by
          unfold limit
          rw [hone]
          ring
  · intro k hk
    have hlast : ∀ last, 309 = last →
        (4 * binade - 5) * 2 ^ (topShift - 1 - pointShift) < 10 ^ last := by
      rintro _ rfl
      decide +kernel
    obtain ⟨last, h⟩ : ∃ last, 309 = last := ⟨_, rfl⟩
    rw [hone] at hlast
    calc value ≤ (4 * binade - 5) * one := hbelow
      _ < 10 ^ last := hlast last h
      _ ≤ 10 ^ k := Nat.pow_le_pow_right (by decide) (h ▸ hk)

theorem scaled_smaller {power : Nat} (h : x.place < places - 2)
    (hpower : (x.shortest .even).exponent = power) (positive : 0 < (x.shortest .even).digits) :
    ∃ z, scaled (x.shortest .even).digits power = .finite z := by
  have few := shortest_digits_le .even x
  have word : (x.shortest .even).digits < 0x10000000000000000 :=
    Nat.lt_of_le_of_lt few (by decide)
  rcases Nat.lt_or_ge 288 power with large | small
  · have hle := shortest_le hpower (by omega)
    obtain ⟨room, few⟩ := room_above (Nat.le_trans hle (high_le h))
    apply scaled_positive word _ room positive
    by_contra hmore
    have hlt := few power (by omega)
    have hmul : 10 ^ power ≤ (x.shortest .even).digits * 10 ^ power :=
      Nat.le_mul_of_pos_left _ positive
    omega
  · exact scaled_positive word (by omega) (room_below few small) positive

/-- The decimal that a number is shown as is read as a finite number. -/
theorem scaled_shortest (x : Double) :
    ∃ z, scaled (x.shortest .even).digits (x.shortest .even).exponent = .finite z := by
  rcases Nat.lt_or_ge x.place (places - 2) with smaller | largest
  · rcases Int.lt_or_le (x.shortest .even).exponent 0 with negative | natural
    · exact scaled_negative (Nat.lt_of_le_of_lt (shortest_digits_le .even x) (by decide)) negative
    · obtain ⟨power, hpower⟩ := Int.eq_ofNat_of_zero_le natural
      rcases Nat.eq_zero_or_pos (x.shortest .even).digits with hzero | positive
      · rw [shortest_of_digits_eq_zero hzero]
        exact eq_finite (by decide +kernel)
      · rw [hpower]
        exact scaled_smaller smaller hpower positive
  · exact scaled_largest largest

end Json

end DocViews
