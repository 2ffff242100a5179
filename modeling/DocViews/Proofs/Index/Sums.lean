import DocViews.Index.Reduce
import Mathlib.Algebra.BigOperators.Group.List.Basic
import Mathlib.Algebra.Ring.Int.Defs

/-!
Sums of integers on a machine of 64 bits. A build without overflow checks has the exact sum cut to
64 bits, whatever happens on the way. One with checks has no sum where a partial sum does not fit,
and else the exact one. So the two never differ in a sum, only in whether there is any.
-/

namespace DocViews

open Json (Value)

namespace Reduction

variable {reduction : Reduction} {entries : List Entry} {start : Int}

theorem fits_iff {n : Int} :
    fits n = true ↔ -0x8000000000000000 ≤ n ∧ n < 0x8000000000000000 := by
  rw [fits, Bool.and_eq_true, decide_eq_true_eq, decide_eq_true_eq]

theorem bmod_of_fits {n : Int} (h : fits n = true) : n.bmod 0x10000000000000000 = n := by
  obtain ⟨least, greatest⟩ := fits_iff.mp h
  exact Int.bmod_eq_of_le least greatest

theorem fits_wrappingAdd (a b : Int) : fits (wrappingAdd a b) = true :=
  fits_iff.mpr ⟨Int.le_bmod (by decide), Int.bmod_lt (by decide)⟩

/-- Wrapping around at each step comes to the same as cutting the exact sum once. -/
theorem foldl_wrappingAdd (integers : List Int) (h : fits start = true) :
    integers.foldl wrappingAdd start = (start + integers.sum).bmod 0x10000000000000000 := by
  induction integers generalizing start with
  | nil =>
      rw [List.foldl_nil, List.sum_nil, Int.add_zero, bmod_of_fits h]
  | cons n integers ih =>
      rw [List.foldl_cons, ih (fits_wrappingAdd start n), wrappingAdd, Int.bmod_add_bmod,
        List.sum_cons, Int.add_assoc]

/-- Checked additions fail just where a partial sum does not fit. -/
theorem isNone_foldlM_checkedAdd (integers : List Int) (h : fits start = true) :
    (integers.foldlM checkedAdd start).isNone = true ↔
      ∃ front, front <+: integers ∧ fits (start + front.sum) = false := by
  induction integers generalizing start with
  | nil =>
      simp [h]
  | cons n integers ih =>
      rw [List.foldlM_cons, checkedAdd]
      cases next : fits (start + n) with
      | false =>
          -- Here the first addition fails, which is the partial sum of the first integer.
          have first : fits (start + [n].sum) = false := by simpa using next
          simpa using ⟨[n], by simp, first⟩
      | true =>
          have rest := ih next
          simp only [if_true, Option.bind_eq_bind, Option.bind_some, rest]
          constructor
          · rintro ⟨front, before, exceeds⟩
            exact ⟨n :: front, List.prefix_cons_inj n |>.mpr before,
              by rwa [List.sum_cons, ← Int.add_assoc]⟩
          · rintro ⟨front, before, exceeds⟩
            rcases List.prefix_cons_iff.mp before with rfl | ⟨later, rfl, inside⟩
            · simp [h] at exceeds
            · exact ⟨later, inside, by rwa [List.sum_cons, ← Int.add_assoc] at exceeds⟩

/-- The integers among the values of entries. -/
def integersOf (entries : List Entry) : List Int := entries.filterMap fun e => signed? e.value

/-- Whether every value that is added is an integer with a sign. -/
def Integral (reduction : Reduction) (entries : List Entry) : Prop :=
  reduction = .sum → ∀ e ∈ entries, (signed? e.value).isSome

theorem mapM_signed? {values : List Value} (signed : ∀ v ∈ values, (signed? v).isSome) :
    values.mapM signed? = some (values.filterMap signed?) := by
  induction values with
  | nil => rfl
  | cons v values ih =>
      obtain ⟨n, hn⟩ := Option.isSome_iff_exists.mp (signed v List.mem_cons_self)
      have rest := ih fun v hv => signed v (List.mem_cons_of_mem _ hv)
      rw [List.mapM_cons, hn, rest, List.filterMap_cons_some hn]
      rfl

theorem isSome_of_mapM_signed? {values : List Value} {integers : List Int}
    (h : values.mapM signed? = some integers) : ∀ v ∈ values, (signed? v).isSome := by
  induction values generalizing integers with
  | nil => exact nofun
  | cons v values ih =>
      rw [List.mapM_cons] at h
      obtain ⟨n, hn, h⟩ := Option.bind_eq_some_iff.mp h
      obtain ⟨others, hothers, -⟩ := Option.bind_eq_some_iff.mp h
      exact List.forall_mem_cons.mpr ⟨Option.isSome_iff_exists.mpr ⟨n, hn⟩, ih hothers⟩

/-- The sum of integers is the exact one, cut to 64 bits. -/
theorem sumOf_signed {values : List Value} (signed : ∀ v ∈ values, (signed? v).isSome) :
    sumOf values = .ofInt ((values.filterMap signed?).sum.bmod 0x10000000000000000) := by
  have zero : fits 0 = true := by decide
  rw [sumOf, mapM_signed? signed]
  simp only [foldl_wrappingAdd _ zero, Int.zero_add]

theorem signed?_ofInt {n : Int} (h : fits n = true) : signed? (.ofInt n) = some n := by
  obtain ⟨least, greatest⟩ := fits_iff.mp h
  have below : n < 0x10000000000000000 := Int.lt_trans greatest (by decide)
  unfold Value.ofInt Json.Number.ofInt?
  rw [dif_pos ⟨least, below⟩]
  exact if_pos greatest

theorem mapM_value_signed? (integral : Integral .sum entries) :
    (entries.map (·.value)).mapM signed? = some (integersOf entries) := by
  rw [mapM_signed? (List.forall_mem_map.mpr (integral rfl)), List.filterMap_map]
  rfl

theorem apply_sum (integral : Integral .sum entries) :
    apply .sum entries = .ofInt ((integersOf entries).sum.bmod 0x10000000000000000) := by
  rw [apply, sumOf_signed (List.forall_mem_map.mpr (integral rfl)), List.filterMap_map]
  rfl

/-- Only sums of integers overflow, and these where a partial sum does not fit. -/
theorem overflows_iff :
    reduction.overflows entries = true ↔
      reduction = .sum ∧ Integral .sum entries ∧
        ∃ front, front <+: integersOf entries ∧ fits front.sum = false := by
  have zero : fits 0 = true := by decide
  cases reduction with
  | count => simp [overflows]
  | sum =>
      rw [overflows, sumOverflows]
      cases read : (entries.map (·.value)).mapM signed? with
      | none =>
          have mixed : ¬ Integral .sum entries := fun integral => by
            rw [mapM_value_signed? integral] at read
            cases read
          simp [mixed]
      | some integers =>
          have integral : Integral .sum entries := fun _ =>
            List.forall_mem_map.mp (isSome_of_mapM_signed? read)
          obtain rfl : integersOf entries = integers := by
            rw [mapM_value_signed? integral] at read
            exact Option.some.inj read
          simp [isNone_foldlM_checkedAdd _ zero, integral]

/-- Where a build with overflow checks has a sum it is the exact one, and then any build has it. So
it is enough to know where such a build panics; its answers are those of any build. -/
theorem apply_sum_of_not_overflows (integral : Integral .sum entries)
    (fit : overflows .sum entries = false) :
    apply .sum entries = .ofInt (integersOf entries).sum := by
  have whole : fits (integersOf entries).sum = true := by
    by_contra fitting
    rw [Bool.not_eq_true] at fitting
    have met := overflows_iff.mpr ⟨rfl, integral, _, List.prefix_rfl, fitting⟩
    rw [fit] at met
    cases met
  rw [apply_sum integral, bmod_of_fits whole]

/-- The greatest integer and one more: a build without checks has the least one for it. -/
example :
    let entries : List Entry := [⟨"a", .null, .ofInt 0x7fffffffffffffff⟩, ⟨"b", .null, .ofInt 1⟩]
    overflows .sum entries = true ∧ apply .sum entries = .ofInt (-0x8000000000000000) :=
  ⟨rfl, rfl⟩

end Reduction

end DocViews
