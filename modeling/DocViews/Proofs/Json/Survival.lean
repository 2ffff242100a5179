import DocViews.Proofs.Json.Nesting
import DocViews.Proofs.Numeric.Nearest

/-!
Which numbers survive being written and read. Integers do. The decimal that a float is written as
lies in the interval of what rounds to the float, but it is read in steps: its digits are rounded,
the power of ten is, and so is what comes of the two. A float survives if only the last of these
steps has something to round. It need not survive otherwise.
-/

namespace DocViews.Json

open Binary64 Double

variable {significand s k : Nat} {exponent : Int}

/-- A significand with few enough binary digits is not rounded. -/
theorem ofNat_digits (few : s < 2 ^ 53) (digits : significand = s * 2 ^ k)
    (word : significand < 0x10000000000000000) :
    ∃ x, ofNat significand = .finite x ∧ x.negative = false ∧
      x.magnitude = significand * unitsPerOne := by
  apply ofRatio_exact false (s := s) (k := k + pointShift) _ few (word_lt_limit word)
  rw [digits, unitsPerOne_eq, Nat.pow_add, Nat.mul_assoc]

/-- Nor is a power of ten whose power of five has few enough. -/
theorem ofNat_ten_pow (small : k ≤ 22) :
    ∃ x, ofNat (Nat.pow 10 k) = .finite x ∧ x.negative = false ∧
      x.magnitude = 10 ^ k * unitsPerOne := by
  have few : 5 ^ k < 2 * binade :=
    Nat.lt_of_le_of_lt (Nat.pow_le_pow_right (by decide) small) (by decide)
  have digits : 10 ^ k * unitsPerOne = 5 ^ k * 2 ^ (k + pointShift) := by
    rw [show 10 = 5 * 2 from rfl, Nat.mul_pow, unitsPerOne_eq, Nat.pow_add, Nat.mul_assoc]
  exact ofRatio_exact false digits few (power_lt_limit (by omega))

/-- Then there is one rounding, of the exact ratio. -/
theorem scaled_eq_ofRatio (few : s < 2 ^ 53) (digits : significand = s * 2 ^ k)
    (word : significand < 0x10000000000000000) (small : exponent.natAbs ≤ 22) :
    ∃ numerator denominator, 0 < denominator ∧
      significand * 10 ^ exponent.toNat * denominator =
        numerator * 10 ^ (-exponent).toNat ∧
      scaled significand exponent = ofRatio false numerator denominator := by
  obtain ⟨x, hx, hnegative, hmagnitude⟩ := ofNat_digits few digits word
  unfold scaled
  dsimp only
  split
  · next natural =>
      obtain ⟨y, hy, hpositive, hpower⟩ := ofNat_ten_pow (k := exponent.toNat) (by omega)
      have hwhole : (-exponent).toNat = 0 := by omega
      refine ⟨x.magnitude * y.magnitude, unitsPerOne * unitsPerOne,
        Nat.mul_pos unitsPerOne_pos unitsPerOne_pos, ?_, ?_⟩
      · rw [hmagnitude, hpower, hwhole]
        ring
      · rw [if_pos (by omega), hx, hy, mul, hnegative, hpositive]
        rfl
  · next fractional =>
      obtain ⟨y, hy, hpositive, hpower⟩ := ofNat_ten_pow (k := (-exponent).toNat) (by omega)
      have hsteps : ((-exponent).toNat - 1) / 308 = 0 := by omega
      have hwhole : exponent.toNat = 0 := by omega
      have hpos : 0 < y.magnitude := by
        rw [hpower]
        exact Nat.mul_pos (Nat.pow_pos (by decide)) unitsPerOne_pos
      refine ⟨x.magnitude, y.magnitude, hpos, ?_, ?_⟩
      · rw [hmagnitude, hpower, hwhole]
        ring
      · rw [hsteps, Nat.mul_zero, Nat.sub_zero, hx, shrink, hy, div_eq_ofRatio x hpos, hnegative,
          hpositive]
        rfl

section Floats

variable (x : Double)

theorem spelled_fits : (spelled x).digits < 0x10000000000000000 := by
  unfold spelled
  dsimp only
  split
  · next whole => exact shortest_whole_fits x whole.2 (shortest_few x whole.1)
  · exact shortest_fits x

/-- What is spelled out rounds to the float. -/
theorem covers_spelled :
    x.Covers ((spelled x).digits * 10 ^ (spelled x).exponent.toNat)
      (10 ^ (-(spelled x).exponent).toNat) := by
  have covers := x.covers_shortest .even
  unfold spelled
  dsimp only
  split
  · next whole =>
      refine covers.congr (Nat.pow_pos (by decide)) (Nat.pow_pos (by decide)) ?_
      have hnatural : (-(x.shortest .even).exponent).toNat = 0 := by
        have := whole.2
        omega
      rw [hnatural]
      show _ * 10 ^ 1 = _ * 10 * 10 ^ 0 * 10 ^ 0
      ring
  · exact covers

/-- Whether neither the digits that a float is written with nor its power of ten is rounded: for
the ones 53 binary digits are enough, and zeros behind them, and for the other the 22nd power. -/
def Short (x : Double) : Prop :=
  (∃ s k, s < 2 ^ 53 ∧ (spelled x).digits = s * 2 ^ k) ∧ (spelled x).exponent.natAbs ≤ 22

variable {x}

theorem reread_of_short (short : Short x) : reread x = x := by
  obtain ⟨⟨s, k, few, digits⟩, small⟩ := short
  obtain ⟨numerator, denominator, positive, same, hscaled⟩ :=
    scaled_eq_ofRatio few digits (spelled_fits x) small
  have covers : x.Covers numerator denominator :=
    (covers_spelled x).congr (Nat.pow_pos (by decide)) positive same
  unfold reread
  rw [hscaled, ofRatio_of_covers false positive covers]
  obtain ⟨negative, place, bound⟩ := x
  cases negative <;> rfl

end Floats

/-- Whether a number is read as one that becomes the same float. -/
def Number.Survives (n : Number) : Prop := n.Rounded n.reread

theorem Number.survives_integer (n : Integer) : (Number.integer n).Survives := rfl

theorem Number.survives_float_iff {x : Double} :
    (Number.float x).Survives ↔ (Json.reread x).units = x.units := eq_comm

theorem Number.survives_of_short {x : Double} (short : Short x) : (Number.float x).Survives := by
  rw [survives_float_iff, reread_of_short short]

/-- A value ties with what it is read as if all of its numbers survive, and only then. -/
theorem Value.Rereads.collate_eq_iff {v read : Value} (rereads : v.Rereads read) :
    collate v read = .eq ↔ ∀ n, v.Has n → n.Survives := by
  rw [collate_eq_eq_iff_alike]
  exact rereads.iff_forall_has

end DocViews.Json
