import DocViews.Proofs.Index.Groups
import DocViews.Proofs.Index.Sums
import DocViews.Proofs.Store.Understanding

/-!
Reducing what has been reduced. The rows of a grouping have all that the rows of a coarser one
need, as long as the reductions are integers: cut the keys off, take rows together that follow one
another under keys that now tie, keep the last key and add the values. The groups of the finer
grouping lie inside those of the coarser one, whatever the order of the entries.
-/

namespace DocViews

open Json (Value)

/-- The integer that a value is. -/
def Json.Value.integer? : Value → Option Int
  | .number (.integer n) => some n.value
  | _ => none

theorem Json.Value.integer?_ofInt {n : Int} (least : -0x8000000000000000 ≤ n)
    (greatest : n < 0x10000000000000000) : (ofInt n).integer? = some n := by
  unfold ofInt Number.ofInt?
  rw [dif_pos ⟨least, greatest⟩]
  rfl

/-- Whether a grouping has the groups of another one or smaller ones. -/
inductive Grouping.Refines : Grouping → Grouping → Prop where
  | level {more less : Nat} (le : less ≤ more) : Refines (.level more) (.level less)
  | exact {coarse : Grouping} (grouped : coarse ≠ .all) : Refines .exact coarse

namespace Grouping

variable {fine coarse : Grouping}

theorem Refines.grouped (refines : fine.Refines coarse) : fine ≠ .all ∧ coarse ≠ .all := by
  cases refines with
  | level le => exact ⟨nofun, nofun⟩
  | exact grouped => exact ⟨nofun, grouped⟩

end Grouping

section Runs

variable {α β : Type}

end Runs

namespace Reduction

variable {reduction : Reduction} {fine coarse : Grouping} {entries : List Entry}
  {all : List (List Entry)}

section Amounts

/-- What entries amount to: their number, or the sum of their values that are integers. -/
def amount : Reduction → List Entry → Int
  | .count, entries => entries.length
  | .sum, entries => (integersOf entries).sum

/-- What is too much: counts have 64 bits, sums have a sign besides. -/
def limit : Reduction → Int
  | .count => 0x10000000000000000
  | .sum => 0x8000000000000000

/-- Whether entries are reduced to an integer without an overflow. -/
structure Addable (reduction : Reduction) (entries : List Entry) : Prop where
  integral : reduction.Integral entries
  least : -0x8000000000000000 ≤ reduction.amount entries
  greatest : reduction.amount entries < reduction.limit

instance (reduction : Reduction) (entries : List Entry) : Decidable (reduction.Integral entries) :=
  inferInstanceAs (Decidable (_ → ∀ e ∈ entries, _))

instance (reduction : Reduction) (entries : List Entry) : Decidable (reduction.Addable entries) :=
  decidable_of_iff (reduction.Integral entries ∧
      -0x8000000000000000 ≤ reduction.amount entries ∧ reduction.amount entries < reduction.limit)
    ⟨fun ⟨integral, least, greatest⟩ => ⟨integral, least, greatest⟩,
      fun ⟨integral, least, greatest⟩ => ⟨integral, least, greatest⟩⟩

theorem Addable.fits (addable : Addable .sum entries) :
    fits (integersOf entries).sum = true :=
  fits_iff.mpr ⟨addable.least, addable.greatest⟩

theorem apply_count (entries : List Entry) :
    apply .count entries = .ofInt (amount .count entries) := rfl

theorem Addable.apply_eq (addable : reduction.Addable entries) :
    reduction.apply entries = .ofInt (reduction.amount entries) := by
  cases reduction with
  | count => exact apply_count entries
  | sum => rw [apply_sum addable.integral, bmod_of_fits addable.fits, amount]

theorem Addable.integer? (addable : reduction.Addable entries) :
    (reduction.apply entries).integer? = some (reduction.amount entries) := by
  rw [addable.apply_eq]
  apply Value.integer?_ofInt addable.least
  have widest : reduction.limit ≤ 0x10000000000000000 := by cases reduction <;> decide
  exact Int.lt_of_lt_of_le addable.greatest widest

theorem Addable.signed? (addable : Addable .sum entries) :
    signed? (apply .sum entries) = some (amount .sum entries) := by
  rw [addable.apply_eq]
  exact signed?_ofInt addable.fits

/-- What reduced values are reduced to in their turn: counts are added up, and sums are summed as
values are. -/
def total : Reduction → List Value → Value
  | .count, values => .ofInt (values.filterMap Value.integer?).sum
  | .sum, values => sumOf values

end Amounts

section Sample

def hop (key : Value) (n : Int) : Entry := ⟨"a", key, .ofInt n⟩

end Sample

end Reduction

end DocViews
