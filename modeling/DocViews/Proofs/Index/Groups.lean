import DocViews.Index.Reduce
import DocViews.Proofs.Index.Scan
import Mathlib.Data.List.SplitBy

/-!
The groups of entries that are reduced together. They are runs of neighbours. Cutting off array
keys keeps their order, though it may make keys tie, so entries in the order of their keys are
also in the order of their group keys. Then a run has all entries under its group key, and no
group key comes twice.
-/

namespace DocViews

open Json (Value)

/-- Of two lists that are cut off at the same place either nothing that tells them apart is left,
or what comes first in their order is. -/
theorem collateItems_take (length : Nat) (xs ys : List Value) :
    collateItems (xs.take length) (ys.take length) = .eq ∨
      collateItems (xs.take length) (ys.take length) = collateItems xs ys := by
  induction length generalizing xs ys with
  | zero => exact .inl rfl
  | succ length ih =>
      cases xs with
      | nil => cases ys <;> exact .inr rfl
      | cons x xs =>
          cases ys with
          | nil => exact .inr rfl
          | cons y ys =>
              simp only [List.take_succ_cons, collateItems]
              rcases ih xs ys with tie | same
              · rw [tie, Ordering.then_eq]
                cases collate x y with
                | eq => exact .inl rfl
                | lt => exact .inr rfl
                | gt => exact .inr rfl
              · rw [same]
                exact .inr rfl

section Runs

variable {α : Type} {k : α → Value} {l : List α} {all : List (List α)}

/-- Runs of items whose keys tie are told by what they have and by where they end: the keys of a
run all tie, not those of neighbours only, and no key of a run ties with one of the next. -/
theorem splitBy_sameKey_eq_iff :
    l.splitBy (fun a b => sameKey (k a) (k b)) = all ↔
      all.flatten = l ∧ [] ∉ all ∧
        (∀ run ∈ all, ∀ a ∈ run, ∀ b ∈ run, collate (k a) (k b) = .eq) ∧
        all.IsChain fun g h => ∀ a ∈ g, ∀ b ∈ h, collate (k a) (k b) ≠ .eq := by
  let Tied (a b : α) : Prop := collate (k a) (k b) = .eq
  have trans {a b c : α} (hab : Tied a b) (hbc : Tied b c) : Tied a c :=
    Std.TransCmp.eq_trans hab hbc
  rw [List.splitBy_eq_iff]
  simp only [sameKey, beq_iff_eq, beq_eq_false_iff_ne]
  constructor
  · rintro ⟨whole, nonempty, chain, ends⟩
    have inside : ∀ run ∈ all, ∀ a ∈ run, ∀ b ∈ run, Tied a b := by
      intro run hrun a ha b hb
      have : Trans Tied Tied Tied := ⟨trans⟩
      have : Std.Symm Tied := ⟨fun _ _ hab => Std.OrientedCmp.eq_symm hab⟩
      exact (chain run hrun).pairwise.forall_of_forall
        (fun _ _ => Std.ReflCmp.compare_self) ha hb
    refine ⟨whole.symm, nonempty, inside, ends.imp_of_mem_imp ?_⟩
    intro g h hg hh ⟨hgne, hhne, apart⟩ a ha b hb tied
    have first : Tied (g.getLast hgne) b := trans (inside g hg _ (List.getLast_mem hgne) a ha) tied
    exact apart (trans first (inside h hh b hb _ (List.head_mem hhne)))
  · rintro ⟨whole, nonempty, inside, apart⟩
    refine ⟨whole.symm, nonempty, ?_, apart.imp_of_mem_imp ?_⟩
    · intro run hrun
      exact (List.pairwise_of_forall_mem_list (inside run hrun)).isChain
    · intro g h hg hh apart
      have hgne : g ≠ [] := fun empty => nonempty (empty ▸ hg)
      have hhne : h ≠ [] := fun empty => nonempty (empty ▸ hh)
      exact ⟨hgne, hhne, apart _ (List.getLast_mem hgne) _ (List.head_mem hhne)⟩

end Runs

namespace Direction

variable {d : Direction} {a b c : Value}

theorem turn_eq_lt {o : Ordering} (le : (d.turn o).isLE) (ne : o ≠ .eq) : d.turn o = .lt := by
  cases d <;> cases o <;> first | rfl | exact absurd rfl ne | cases le

/-- Whether one key comes strictly before another in this direction. -/
def Precedes (d : Direction) (a b : Value) : Prop := d.turn (collate a b) = .lt

theorem Precedes.trans (h : d.Precedes a b) (h' : d.Precedes b c) : d.Precedes a c := by
  have along := ((collate_chained a b c).turn d).along
  exact (along (Eq.trans h (Eq.symm h'))).trans h

instance (d : Direction) : Trans d.Precedes d.Precedes d.Precedes := ⟨Precedes.trans⟩

theorem Precedes.not_tie (h : d.Precedes a b) : collate a b ≠ .eq := by
  intro tie
  rw [Precedes, tie] at h
  cases d <;> cases h

end Direction

namespace Grouping

variable {grouping : Grouping} {a b : Value}

theorem collate_key (grouping : Grouping) (a b : Value) :
    collate (grouping.key a) (grouping.key b) = .eq ∨
      collate (grouping.key a) (grouping.key b) = collate a b := by
  cases grouping with
  | all => exact .inr rfl
  | exact => exact .inr rfl
  | level length =>
      cases a <;> cases b
      case array.array xs ys =>
        simp only [key, collate]
        exact collateItems_take length xs ys
      all_goals exact .inr rfl

theorem turn_key_isLE {d : Direction} (le : (d.turn (collate a b)).isLE) :
    (d.turn (collate (grouping.key a) (grouping.key b))).isLE := by
  rcases grouping.collate_key a b with tie | same
  · rw [tie]
    cases d <;> rfl
  · rwa [same]

end Grouping

namespace Reduction

variable {reduction : Reduction} {grouping : Grouping} {d : Direction}
  {entries group other : List Entry}

theorem groups_eq_iff {all : List (List Entry)} :
    groups grouping entries = all ↔
      all.flatten = entries ∧ [] ∉ all ∧
        (∀ group ∈ all, ∀ e ∈ group, ∀ f ∈ group,
          collate (grouping.key e.key) (grouping.key f.key) = .eq) ∧
        all.IsChain fun g h => ∀ e ∈ g, ∀ f ∈ h,
          collate (grouping.key e.key) (grouping.key f.key) ≠ .eq :=
  splitBy_sameKey_eq_iff

theorem flatten_groups (grouping : Grouping) (entries : List Entry) :
    (groups grouping entries).flatten = entries :=
  (groups_eq_iff.mp rfl).1

theorem ne_nil_of_mem_groups (h : group ∈ groups grouping entries) : group ≠ [] :=
  List.ne_nil_of_mem_splitBy h

theorem mem_of_mem_group (h : group ∈ groups grouping entries) {e : Entry} (he : e ∈ group) :
    e ∈ entries := by
  rw [← flatten_groups grouping entries]
  exact List.mem_flatten.mpr ⟨group, h, he⟩

theorem collate_eq_of_mem_group (h : group ∈ groups grouping entries) {e f : Entry}
    (he : e ∈ group) (hf : f ∈ group) :
    collate (grouping.key e.key) (grouping.key f.key) = .eq :=
  (groups_eq_iff.mp rfl).2.2.1 group h e he f hf

/-- The key of the last entry. -/
def lastKey (group : List Entry) : Value := (group.getLast?.map (·.key)).getD .null

theorem lastKey_eq (nonempty : group ≠ []) : lastKey group = (group.getLast nonempty).key := by
  rw [lastKey, List.getLast?_eq_some_getLast nonempty]
  rfl

theorem groupRow_eq (nonempty : group ≠ []) :
    reduction.groupRow grouping group =
      some (row (grouping.key (lastKey group)) (reduction.apply group)) := by
  rw [groupRow, lastKey_eq nonempty, List.getLast?_eq_some_getLast nonempty]
  rfl

/-- There is a row for each group. -/
theorem rows_eq (grouped : grouping ≠ .all) :
    reduction.rows grouping entries = (groups grouping entries).map fun group =>
      row (grouping.key (lastKey group)) (reduction.apply group) := by
  have each : reduction.rows grouping entries =
      (groups grouping entries).filterMap (reduction.groupRow grouping) := by
    cases grouping with
    | all => exact absurd rfl grouped
    | exact => rfl
    | level length => rfl
  rw [each, ← List.filterMap_eq_map]
  exact List.filterMap_congr fun group h => groupRow_eq (ne_nil_of_mem_groups h)

theorem rowsOverflow_iff (grouped : grouping ≠ .all) :
    reduction.rowsOverflow grouping entries = true ↔
      ∃ group ∈ groups grouping entries, reduction.overflows group = true := by
  cases grouping with
  | all => exact absurd rfl grouped
  | exact => exact List.any_eq_true
  | level length => exact List.any_eq_true

/-- The key of a group's row stands for the keys of all its entries. -/
theorem collate_lastKey (h : group ∈ groups grouping entries) {e : Entry} (he : e ∈ group) :
    collate (grouping.key e.key) (grouping.key (lastKey group)) = .eq := by
  rw [lastKey_eq (ne_nil_of_mem_groups h)]
  exact collate_eq_of_mem_group h he (List.getLast_mem _)

/-- Entries that are reduced together, and the key of their row. -/
structure Group where
  key : Value
  entries : List Entry

def Group.row (reduction : Reduction) (group : Group) : Value :=
  Reduction.row group.key (reduction.apply group.entries)

/-- That groups divide entries which are scanned in this direction by their group keys: one group
after another they are the entries, each has all entries under its key and at least one, each
entry is under one of the keys only, and the keys strictly ascend or descend. -/
structure Divides (grouping : Grouping) (d : Direction) (entries : List Entry)
    (groups : List Group) : Prop where
  whole : groups.flatMap (·.entries) = entries
  nonempty : ∀ group ∈ groups, group.entries ≠ []
  members : ∀ group ∈ groups,
    group.entries = entries.filter fun e => sameKey (grouping.key e.key) group.key
  once : ∀ e ∈ entries, ∃! group, group ∈ groups ∧ collate (grouping.key e.key) group.key = .eq
  ordered : (groups.map (·.key)).Pairwise d.Precedes

/-- The groups of entries, each with the key of its row. -/
def keyed (grouping : Grouping) (entries : List Entry) : List Group :=
  (groups grouping entries).map fun group => ⟨grouping.key (lastKey group), group⟩

theorem rows_eq_keyed (grouped : grouping ≠ .all) :
    reduction.rows grouping entries = (keyed grouping entries).map (·.row reduction) := by
  rw [rows_eq grouped, keyed, List.map_map]
  rfl

theorem rowsOverflow_keyed (grouped : grouping ≠ .all) :
    reduction.rowsOverflow grouping entries = true ↔
      ∃ group ∈ keyed grouping entries, reduction.overflows group.entries = true := by
  simp only [rowsOverflow_iff grouped, keyed, List.mem_map, exists_exists_and_eq_and]

theorem map_key_keyed (grouping : Grouping) (entries : List Entry) :
    (keyed grouping entries).map (·.key) =
      (groups grouping entries).map fun group => grouping.key (lastKey group) := by
  rw [keyed, List.map_map]
  rfl

section Ordered

variable (sorted : entries.Pairwise fun a b => (d.turn (collate a.key b.key)).isLE)

include sorted

/-- The keys of the groups strictly ascend or descend: for neighbours that is because entries
come in the order of their group keys and neighbours are apart. -/
theorem keyed_ordered (grouping : Grouping) :
    ((keyed grouping entries).map (·.key)).Pairwise d.Precedes := by
  obtain ⟨whole, nonempty, -, apart⟩ := groups_eq_iff.mp (rfl : groups grouping entries = _)
  have across := sorted
  rw [← whole, List.pairwise_flatten] at across
  rw [map_key_keyed]
  refine List.IsChain.pairwise ?_
  rw [List.isChain_map]
  refine List.isChain_iff_getElem.mpr fun i hi => ?_
  have hg : (groups grouping entries)[i] ≠ [] := ne_nil_of_mem_groups (List.getElem_mem _)
  have hh : (groups grouping entries)[i + 1] ≠ [] := ne_nil_of_mem_groups (List.getElem_mem _)
  have le := List.pairwise_iff_getElem.mp across.2 i (i + 1) (Nat.lt_of_succ_lt hi) hi
    (Nat.lt_succ_self i) _ (List.getLast_mem hg) _ (List.getLast_mem hh)
  rw [lastKey_eq hg, lastKey_eq hh]
  exact Direction.turn_eq_lt (Grouping.turn_key_isLE le)
    (apart.getElem i hi _ (List.getLast_mem hg) _ (List.getLast_mem hh))

/-- A group has all entries under its key. -/
theorem eq_filter_of_mem_groups (h : group ∈ groups grouping entries) :
    group = entries.filter fun e =>
      sameKey (grouping.key e.key) (grouping.key (lastKey group)) := by
  obtain ⟨before, after, split⟩ := List.append_of_mem h
  have ordered := keyed_ordered sorted grouping
  rw [map_key_keyed, split, List.pairwise_map, List.pairwise_append, List.pairwise_cons] at ordered
  obtain ⟨-, ⟨later, -⟩, earlier⟩ := ordered
  have passes_iff (e : Entry) :
      sameKey (grouping.key e.key) (grouping.key (lastKey group)) = true ↔
        collate (grouping.key e.key) (grouping.key (lastKey group)) = .eq := by
    rw [sameKey, beq_iff_eq]
  -- Entries of a group with another key are under that one.
  have none (others : List (List Entry))
      (apart : ∀ g ∈ others, g ∈ groups grouping entries ∧
        collate (grouping.key (lastKey g)) (grouping.key (lastKey group)) ≠ .eq) :
      others.flatten.filter (fun e =>
        sameKey (grouping.key e.key) (grouping.key (lastKey group))) = [] := by
    rw [List.filter_eq_nil_iff]
    intro e he passes
    obtain ⟨g, hg, heg⟩ := List.mem_flatten.mp he
    obtain ⟨hmem, differ⟩ := apart g hg
    exact differ (Std.TransCmp.eq_trans (Std.OrientedCmp.eq_symm (collate_lastKey hmem heg))
      ((passes_iff e).mp passes))
  have front := none before fun g hg =>
    ⟨split ▸ List.mem_append_left _ hg, (earlier g hg group List.mem_cons_self).not_tie⟩
  have back := none after fun g hg =>
    ⟨split ▸ List.mem_append_right _ (List.mem_cons_of_mem _ hg),
      fun tie => (later g hg).not_tie (Std.OrientedCmp.eq_symm tie)⟩
  have own : group.filter (fun e =>
      sameKey (grouping.key e.key) (grouping.key (lastKey group))) = group :=
    List.filter_eq_self.mpr fun e he => (passes_iff e).mpr (collate_lastKey h he)
  have whole := flatten_groups grouping entries
  rw [split, List.flatten_append, List.flatten_cons] at whole
  rw [← whole, List.filter_append, List.filter_append, front, back, own, List.nil_append,
    List.append_nil]

/-- The groups of entries in the order of their keys divide them. -/
theorem divides_keyed (grouping : Grouping) :
    Divides grouping d entries (keyed grouping entries) where
  whole := by
    rw [keyed, List.flatMap_map]
    exact List.flatMap_id.trans (flatten_groups grouping entries)
  nonempty := by
    intro group h
    obtain ⟨run, hrun, rfl⟩ := List.mem_map.mp h
    exact ne_nil_of_mem_groups hrun
  members := by
    intro group h
    obtain ⟨run, hrun, rfl⟩ := List.mem_map.mp h
    exact eq_filter_of_mem_groups sorted hrun
  once := by
    intro e he
    rw [← flatten_groups grouping entries, List.mem_flatten] at he
    obtain ⟨run, hrun, he⟩ := he
    refine ⟨⟨grouping.key (lastKey run), run⟩, ⟨List.mem_map.mpr ⟨run, hrun, rfl⟩,
      collate_lastKey hrun he⟩, ?_⟩
    -- Another group under whose key the entry is has the same entries.
    rintro group ⟨h, tie⟩
    obtain ⟨other, hother, rfl⟩ := List.mem_map.mp h
    have keys : collate (grouping.key (lastKey other)) (grouping.key (lastKey run)) = .eq :=
      Std.TransCmp.eq_trans (Std.OrientedCmp.eq_symm tie) (collate_lastKey hrun he)
    have same : other = run := calc
      other = entries.filter fun f =>
          sameKey (grouping.key f.key) (grouping.key (lastKey other)) :=
        eq_filter_of_mem_groups sorted hother
      _ = entries.filter fun f =>
          sameKey (grouping.key f.key) (grouping.key (lastKey run)) := by
        simp only [sameKey, Std.TransCmp.congr_right keys]
      _ = run := (eq_filter_of_mem_groups sorted hrun).symm
    rw [same]
  ordered := keyed_ordered sorted grouping

end Ordered

end Reduction

end DocViews
