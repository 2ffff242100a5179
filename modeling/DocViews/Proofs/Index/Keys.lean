import DocViews.Proofs.Index.Groups
import Mathlib.Data.List.Perm.Basic

/-!
What an index has under listed keys. Each key has its block of entries, in the order of the scan.
The blocks are in the order of the list, and twice if keys are listed that tie. Blocks of keys that
do not tie are groups, though nothing says that these come in any order.
-/

namespace DocViews

open Json (Value)

section Lists

variable {α β : Type}

theorem filter_eq_flatMap (test : α → Bool) (l : List α) :
    l.filter test = l.flatMap fun a => List.replicate (if test a then 1 else 0) a := by
  induction l with
  | nil => rfl
  | cons a l ih =>
      rw [List.flatMap_cons, ← ih, List.filter_cons]
      cases test a <;> rfl

/-- What is picked from a list by several tests has each item as often as it passes one. -/
theorem flatMap_filter_perm (test : β → α → Bool) (tests : List β) (l : List α) :
    (tests.flatMap fun t => l.filter (test t)).Perm
      (l.flatMap fun a => List.replicate (tests.countP (test · a)) a) := by
  induction tests with
  | nil => simp
  | cons t tests ih =>
      rw [List.flatMap_cons, filter_eq_flatMap]
      refine (ih.append_left _).trans ((List.flatMap_append_perm l _ _).trans (.of_eq ?_))
      simp only [List.replicate_append_replicate, List.countP_cons, Nat.add_comm]

end Lists

namespace Index

variable {index : Index} {d : Direction} {key : Value} {keys : List Value} {e : Entry}

/-- Whether there are entries under a key. -/
def has (index : Index) (key : Value) : Bool := index.entries.any fun e => sameKey e.key key

/-- The entries under a key as they are scanned. -/
def under (index : Index) (d : Direction) (key : Value) : List Entry :=
  (index.scan d).filter fun e => sameKey e.key key

theorem under_of_scan {scanned : List Entry} (h : index.scan d = scanned) :
    index.under d = fun key => scanned.filter fun e => sameKey e.key key := by
  subst h
  rfl

theorem mem_under : e ∈ index.under d key ↔ e ∈ index.entries ∧ collate e.key key = .eq := by
  rw [under, List.mem_filter, (index.scan_perm d).mem_iff, sameKey, beq_iff_eq]

theorem under_eq_nil_iff : index.under d key = [] ↔ index.has key = false := by
  rw [under, List.filter_eq_nil_iff, has, List.any_eq_false]
  simp only [(index.scan_perm d).mem_iff]

/-- Under one key the order of a scan is that of the documents. -/
theorem under_ordered (index : Index) (d : Direction) (key : Value) :
    (index.under d key).Pairwise fun a b => (d.turn (compare a.id b.id)).isLE := by
  have sorted := (index.scan_sorted d).sublist (List.filter_sublist (p := (sameKey ·.key key)))
  refine sorted.imp_of_mem fun {a b} ha hb le => ?_
  have tie : collate a.key b.key = .eq :=
    Std.TransCmp.eq_trans (mem_under.mp ha).2 (Std.OrientedCmp.eq_symm (mem_under.mp hb).2)
  rwa [Entry.orderIn, Entry.order, tie, Ordering.eq_then] at le

theorem flatMap_under_perm (index : Index) (d : Direction) (keys : List Value) :
    (keys.flatMap (index.under d)).Perm (index.entries.flatMap fun e =>
      List.replicate (keys.countP fun key => sameKey e.key key) e) :=
  (flatMap_filter_perm (fun key (e : Entry) => sameKey e.key key) keys (index.scan d)).trans
    ((index.scan_perm d).flatMap_right _)

theorem flatten_map_under (keys : List Value) :
    ((keys.filter index.has).map (index.under d)).flatten = keys.flatMap (index.under d) := by
  induction keys with
  | nil => rfl
  | cons key keys ih =>
      rw [List.flatMap_cons, ← ih]
      cases h : index.has key with
      | true => rw [List.filter_cons_of_pos h]; rfl
      | false =>
          rw [List.filter_cons_of_neg (ne_true_of_eq_false h), under_eq_nil_iff.mpr h]
          rfl

/-- The blocks of keys that do not tie are the groups of equal keys. -/
theorem groups_flatMap_under (apart : keys.Pairwise fun a b => collate a b ≠ .eq) :
    Reduction.groups .exact (keys.flatMap (index.under d)) =
      (keys.filter index.has).map (index.under d) := by
  rw [Reduction.groups_eq_iff]
  refine ⟨flatten_map_under keys, ?_, ?_, ?_⟩
  · intro h
    obtain ⟨key, hkey, empty⟩ := List.mem_map.mp h
    have found := (List.mem_filter.mp hkey).2
    rw [under_eq_nil_iff.mp empty] at found
    cases found
  · intro _ h e he f hf
    obtain ⟨key, -, rfl⟩ := List.mem_map.mp h
    exact Std.TransCmp.eq_trans (mem_under.mp he).2 (Std.OrientedCmp.eq_symm (mem_under.mp hf).2)
  · rw [List.isChain_map]
    refine (apart.sublist List.filter_sublist).isChain.imp fun a b differ e he f hf tie => ?_
    exact differ (Std.TransCmp.eq_trans (Std.OrientedCmp.eq_symm (mem_under.mp he).2)
      (Std.TransCmp.eq_trans tie (mem_under.mp hf).2))

end Index

end DocViews
