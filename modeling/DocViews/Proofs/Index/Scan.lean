import DocViews.Index.Plan
import DocViews.Proofs.Collation
import Mathlib.Data.List.Sort

/-!
The order in which a query meets the entries of an index. A scan is the index sorted in its
direction, and where a bound lies agrees with that order: what comes later in a scan does not
lie before a bound that an earlier entry has reached.
-/

namespace DocViews

/-- An ordering as it looks in this direction. -/
def Direction.turn : Direction → Ordering → Ordering
  | .ascending, o => o
  | .descending, o => o.swap

theorem Direction.turn_isLE_then {d : Direction} {first second : Ordering}
    (h : (d.turn (first.then second)).isLE) : (d.turn first).isLE := by
  cases d <;> cases first <;> first | rfl | exact h

theorem Chained.turn {xy yz xz : Ordering} (chained : Chained xy yz xz) (d : Direction) :
    Chained (d.turn xy) (d.turn yz) (d.turn xz) := by
  obtain ⟨left, right, along⟩ := chained
  cases d with
  | ascending => exact ⟨left, right, along⟩
  | descending =>
      simp only [Direction.turn]
      refine ⟨fun h => ?_, fun h => ?_, fun h => ?_⟩
      · rw [left (Ordering.swap_eq_eq.mp h)]
      · rw [right (Ordering.swap_eq_eq.mp h)]
      · rw [along (Ordering.swap_inj.mp h)]

namespace Entry

/-- How two entries compare in the direction of a scan. -/
def orderIn (d : Direction) (a b : Entry) : Ordering := d.turn (a.order b)

theorem order_eq_eq {a b : Entry} : a.order b = .eq ↔ collate a.key b.key = .eq ∧ a.id = b.id := by
  simp [order, Ordering.then_eq_eq]

instance (d : Direction) : Std.TransCmp (orderIn d) :=
  match d with
  | .ascending => inferInstanceAs (Std.TransCmp order)
  | .descending =>
      have h : orderIn .descending = fun a b => order b a := by
        funext a b
        exact Std.OrientedCmp.eq_swap.symm
      h ▸ (inferInstance : Std.TransCmp fun a b => order b a)

end Entry

namespace Index

variable {index : Index}

theorem scan_perm (index : Index) (d : Direction) : (index.scan d).Perm index.entries := by
  cases d with
  | ascending => exact List.mergeSort_perm _ _
  | descending => exact (List.reverse_perm _).trans (List.mergeSort_perm _ _)

theorem scan_sorted (index : Index) (d : Direction) :
    (index.scan d).Pairwise fun a b => (Entry.orderIn d a b).isLE := by
  have sorted : (index.scan .ascending).Pairwise fun a b => (a.order b).isLE := by
    apply List.pairwise_mergeSort
    · exact fun a b c hab hbc => Std.TransCmp.isLE_trans hab hbc
    · intro a b
      have swapped : b.order a = (a.order b).swap := Std.OrientedCmp.eq_swap
      rw [swapped]
      cases a.order b <;> rfl
  cases d with
  | ascending => exact sorted
  | descending =>
      refine List.pairwise_reverse.mpr (sorted.imp fun {a b} hab => ?_)
      show (b.order a).swap.isLE
      rwa [← Std.OrientedCmp.eq_swap]

/-- Whether no two entries tie on both key and document. -/
def Apart (index : Index) : Prop := index.entries.Pairwise fun a b => a.order b ≠ .eq

/-- A scan of such an index is strictly ordered. -/
theorem Apart.scan (apart : index.Apart) (d : Direction) :
    (index.scan d).Pairwise fun a b => Entry.orderIn d a b = .lt := by
  have differ : (index.scan d).Pairwise fun a b => a.order b ≠ .eq :=
    ((index.scan_perm d).pairwise_iff fun h h' => h (Std.OrientedCmp.eq_symm h')).mpr apart
  refine (differ.and (index.scan_sorted d)).imp fun {a b} ⟨hne, hle⟩ => ?_
  cases d <;> cases h : a.order b <;> simp_all [Entry.orderIn, Direction.turn]

end Index

namespace Bound

variable {b : Bound} {d : Direction} {e f : Entry}

/-- A bound with a document is a place between entries. -/
theorem position_docId {id : String} (h : b.docId = some id) (d : Direction) (e : Entry) :
    b.position d e = e.orderIn d ⟨id, b.key, .null⟩ := by
  unfold position Entry.orderIn
  rw [h]
  cases d <;> rfl

/-- A bound with the document of an entry and a key like its own is the place of the entry. -/
theorem position_at (hkey : collate b.key e.key = .eq) (hid : b.docId = some e.id)
    (d : Direction) (f : Entry) : b.position d f = f.orderIn d e := by
  have order : Entry.order ⟨e.id, b.key, .null⟩ e = .eq := Entry.order_eq_eq.mpr ⟨hkey, rfl⟩
  have tie : Entry.orderIn d ⟨e.id, b.key, .null⟩ e = .eq := by
    cases d <;> simp [Entry.orderIn, Direction.turn, order]
  rw [position_docId hid]
  exact Std.TransCmp.congr_right tie

theorem position_key (h : b.docId = none) (d : Direction) (e : Entry) :
    b.position d e = d.turn (collate e.key b.key) := by
  unfold position
  rw [h]
  cases d <;> rfl

/-- Where a bound lies agrees with the order of a scan. -/
theorem position_chained (b : Bound) (le : (e.orderIn d f).isLE) : ∃ between : Ordering,
    between.isLE ∧ Chained between (b.position d f) (b.position d e) := by
  cases hid : b.docId with
  | some id =>
      rw [position_docId hid, position_docId hid]
      exact ⟨_, le, .of_transCmp (Entry.orderIn d) e f _⟩
  | none =>
      rw [position_key hid, position_key hid]
      exact ⟨_, Direction.turn_isLE_then le, (collate_chained e.key f.key b.key).turn d⟩

/-- What comes after an entry that has reached the bound has reached it too. -/
theorem position_ne_lt (le : (e.orderIn d f).isLE) (reached : b.position d e ≠ .lt) :
    b.position d f ≠ .lt := by
  obtain ⟨between, hle, chained⟩ := b.position_chained le
  intro hlt
  cases between with
  | lt => exact reached (chained.along hlt.symm)
  | eq => exact reached ((chained.left rfl).trans hlt)
  | gt => cases hle

/-- What comes before an entry that is not past the bound is not past it either. -/
theorem position_ne_gt (le : (e.orderIn d f).isLE) (within : b.position d f ≠ .gt) :
    b.position d e ≠ .gt := by
  obtain ⟨between, hle, chained⟩ := b.position_chained le
  intro hgt
  cases between with
  | lt =>
      cases hf : b.position d f with
      | lt => cases hgt.symm.trans (chained.along hf.symm)
      | eq => cases hgt.symm.trans (chained.right hf)
      | gt => exact within hf
  | eq => exact within ((chained.left rfl).symm.trans hgt)
  | gt => cases hle

end Bound

/-- A window leaves some of the rows, in their order. -/
theorem Window.apply_sublist {α : Type} (window : Window) (rows : List α) :
    (window.apply rows).Sublist rows := by
  unfold apply
  split
  · exact (List.take_sublist _ _).trans (List.drop_sublist _ _)
  · exact List.drop_sublist _ _

/-- A range that begins at an entry of another range has what is left of that one from the entry
on, if no two entries tie. -/
theorem Index.Apart.select_from {index : Index} (apart : index.Apart) {d : Direction}
    {key : Option Json.Value} {start stop : Option Bound} {inclusive : Bool}
    {before later : List Entry} {e : Entry} {b : Bound}
    (selected : (Selection.range key start stop inclusive).select d (index.scan d) =
      before ++ e :: later)
    (hkey : collate b.key e.key = .eq) (hid : b.docId = some e.id) :
    (Selection.range key (some b) stop inclusive).select d (index.scan d) = e :: later := by
  have position := Bound.position_at hkey hid d
  have sorted := apart.scan d
  simp only [Selection.select] at selected ⊢
  obtain ⟨front, rest, split, -, hrest⟩ := List.filter_eq_append_iff.mp selected
  obtain ⟨skipped, tail, rfl, -, admitted, rfl⟩ := List.filter_eq_cons_iff.mp hrest
  rw [← List.append_assoc] at split
  rw [split] at sorted ⊢
  obtain ⟨-, sortedTail, sortedAcross⟩ := List.pairwise_append.mp sorted
  simp only [Bool.and_eq_true] at admitted
  obtain ⟨⟨hadmitsKey, hstart⟩, hstop⟩ := admitted
  -- What comes before the entry lies before the bound.
  have gone : (front ++ skipped).filter (fun f => Selection.admitsKey key f &&
      Selection.admitsStart (some b) d f && Selection.admitsStop stop inclusive d f) = [] := by
    refine List.filter_eq_nil_iff.mpr fun f hf => ?_
    have hlt : b.position d f = .lt :=
      (position f).trans (sortedAcross f hf e List.mem_cons_self)
    simp [Selection.admitsStart, hlt]
  -- What comes after it was admitted by the old start as well as by the new one.
  have kept : tail.filter (fun f => Selection.admitsKey key f &&
      Selection.admitsStart (some b) d f && Selection.admitsStop stop inclusive d f) =
      tail.filter (fun f => Selection.admitsKey key f &&
        Selection.admitsStart start d f && Selection.admitsStop stop inclusive d f) := by
    refine List.filter_congr fun f hf => ?_
    have hlt : e.orderIn d f = .lt := (List.pairwise_cons.mp sortedTail).1 f hf
    have hnew : Selection.admitsStart (some b) d f = true := by
      have hgt : f.orderIn d e = .gt := Std.OrientedCmp.gt_of_lt hlt
      simp [Selection.admitsStart, position, hgt]
    have hold : Selection.admitsStart start d f = true := by
      cases start with
      | none => rfl
      | some bound =>
          have reached : bound.position d e ≠ .lt := by simpa [Selection.admitsStart] using hstart
          have : bound.position d f ≠ .lt := Bound.position_ne_lt (by rw [hlt]; rfl) reached
          simpa [Selection.admitsStart] using this
    rw [hnew, hold]
  have here : Selection.admitsStart (some b) d e = true := by
    have heq : e.orderIn d e = .eq := Std.ReflCmp.compare_self
    simp [Selection.admitsStart, position, heq]
  rw [List.filter_append, gone, List.nil_append,
    List.filter_cons_of_pos (by simp [hadmitsKey, here, hstop]), kept]

end DocViews
