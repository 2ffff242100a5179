import DocViews.Dictionary

/-!
Dictionaries that are built from pairs in order, which are kept as they are; what is found in
a dictionary where something was put into it, removed or made into something else; and that a
dictionary is known from what is found in it.
-/

namespace DocViews

namespace Pairs

variable {α : Type}

theorem isSome_find?_iff {key : String} {pairs : Pairs α} :
    (find? key pairs).isSome ↔ key ∈ pairs.map (·.1) := by
  induction pairs with
  | nil => simp [find?]
  | cons entry rest ih =>
      obtain ⟨k, v⟩ := entry
      by_cases h : k = key
      · simp [find?, h]
      · simp [find?, h, Ne.symm h, ih]

/-- A key that comes after all others is put last. -/
theorem insert_last {pairs : Pairs α} {key : String} (value : α)
    (h : ∀ entry ∈ pairs, entry.1 < key) : insert key value pairs = pairs ++ [(key, value)] := by
  induction pairs with
  | nil => rfl
  | cons entry rest ih =>
      obtain ⟨k, v⟩ := entry
      have hk : k < key := h (k, v) List.mem_cons_self
      have hne : key ≠ k := by
        rintro rfl
        exact String.lt_irrefl key hk
      rw [insert, if_neg (String.lt_asymm hk), if_neg hne,
        ih fun entry hentry => h entry (List.mem_cons_of_mem _ hentry)]
      rfl

/-- Whether pairs ascend is up to their keys. -/
theorem ascending_of_keys {pairs : Pairs α} (keys : List String)
    (h : pairs.map (·.1) = keys) (ascending : keys.Pairwise (· < ·)) : Ascending pairs :=
  List.pairwise_map.mp (h ▸ ascending)

theorem find?_eq_none_of_lt {pairs : Pairs α} {key : String}
    (h : ∀ entry ∈ pairs, key < entry.1) : find? key pairs = none := by
  induction pairs with
  | nil => rfl
  | cons entry rest ih =>
      obtain ⟨k, v⟩ := entry
      have hne : k ≠ key := by
        rintro rfl
        exact String.lt_irrefl k (h (k, v) List.mem_cons_self)
      rw [find?, if_neg hne, ih fun entry hentry => h entry (List.mem_cons_of_mem _ hentry)]

theorem eq_of_find? {a b : Pairs α} (ha : Ascending a) (hb : Ascending b)
    (same : ∀ key, find? key a = find? key b) : a = b := by
  induction a generalizing b with
  | nil =>
      cases b with
      | nil => rfl
      | cons entry rest => simpa [find?] using same entry.1
  | cons entry rest ih =>
      obtain ⟨k, v⟩ := entry
      cases b with
      | nil => simpa [find?] using same k
      | cons entry' rest' =>
          obtain ⟨l, w⟩ := entry'
          obtain ⟨hk, hrest⟩ := List.pairwise_cons.mp ha
          obtain ⟨hl, hrest'⟩ := List.pairwise_cons.mp hb
          have atK := same k
          have atL := same l
          -- A first key that came before the other one would not be found there.
          have head : k = l := by
            by_cases equal : k = l
            · exact equal
            · by_cases before : k < l
              · rw [find?, if_pos rfl, find?, if_neg (Ne.symm equal),
                  find?_eq_none_of_lt fun e he => String.lt_trans before (hl e he)] at atK
                cases atK
              · have behind : l < k := Std.lt_of_le_of_ne (String.not_lt.1 before) (Ne.symm equal)
                rw [find?, if_neg equal,
                  find?_eq_none_of_lt fun e he => String.lt_trans behind (hk e he), find?,
                  if_pos rfl] at atL
                cases atL
          subst head
          rw [find?, if_pos rfl, find?, if_pos rfl] at atK
          cases atK
          rw [ih hrest hrest' fun key => ?_]
          by_cases h : k = key
          · subst h
            rw [find?_eq_none_of_lt hk, find?_eq_none_of_lt hl]
          · have atKey := same key
            rwa [find?, if_neg h, find?, if_neg h] at atKey

theorem find?_mapValues {β : Type} {f : α → Option β} {pairs : Pairs α} (h : Ascending pairs)
    (key : String) : find? key (pairs.mapValues f) = (find? key pairs).bind f := by
  unfold mapValues
  induction pairs with
  | nil => rfl
  | cons entry rest ih =>
      obtain ⟨k, v⟩ := entry
      obtain ⟨hk, hrest⟩ := List.pairwise_cons.mp h
      by_cases hkey : k = key
      · subst hkey
        cases hf : f v with
        | none =>
            rw [List.filterMap_cons_none (by simp [hf]), ih hrest, find?_eq_none_of_lt hk, find?,
              if_pos rfl, Option.bind_some, hf]
            rfl
        | some w =>
            rw [List.filterMap_cons_some (by simp [hf]; rfl), find?, if_pos rfl, find?, if_pos rfl,
              Option.bind_some, hf]
      · cases hf : f v with
        | none => rw [List.filterMap_cons_none (by simp [hf]), ih hrest, find?, if_neg hkey]
        | some w =>
            rw [List.filterMap_cons_some (by simp [hf]; rfl), find?, if_neg hkey, ih hrest, find?,
              if_neg hkey]

end Pairs

namespace Dictionary

variable {α β : Type}

theorem find?_insert (key other : String) (value : α) (d : Dictionary α) :
    (d.insert key value).find? other = if key = other then some value else d.find? other := by
  split
  · next h =>
      rw [h]
      exact find?_insert_self other value d
  · next h => exact find?_insert_of_ne h value d

theorem find?_erase (key other : String) (d : Dictionary α) :
    (d.erase key).find? other = if key = other then none else d.find? other := by
  split
  · next h =>
      rw [h]
      exact find?_erase_self other d
  · next h => exact find?_erase_of_ne h d

theorem isSome_find?_iff {key : String} {d : Dictionary α} :
    (d.find? key).isSome ↔ key ∈ d.keys :=
  Pairs.isSome_find?_iff

theorem find?_mapValues (f : α → Option β) (key : String) (d : Dictionary α) :
    (d.mapValues f).find? key = (d.find? key).bind f :=
  Pairs.find?_mapValues d.ascending key

/-- Two dictionaries in which the same is found are the same. -/
theorem eq_of_find? {a b : Dictionary α} (same : ∀ key, a.find? key = b.find? key) : a = b := by
  obtain ⟨pairs, ha⟩ := a
  obtain ⟨others, hb⟩ := b
  have equal : pairs = others := Pairs.eq_of_find? ha hb same
  subst equal
  rfl

theorem mem_insert {key : String} {value : α} {d : Dictionary α} {pair : String × α}
    (h : pair ∈ (d.insert key value).pairs) : pair = (key, value) ∨ pair ∈ d.pairs :=
  Pairs.mem_insert h

/-- Pairs that are put into a dictionary in order come behind the ones that were there. -/
theorem pairs_foldl_insert {d : Dictionary α} {pairs : Pairs α}
    (ascending : Pairs.Ascending (d.pairs ++ pairs)) :
    (pairs.foldl (fun d pair => d.insert pair.1 pair.2) d).pairs = d.pairs ++ pairs := by
  induction pairs generalizing d with
  | nil => exact (List.append_nil d.pairs).symm
  | cons pair pairs ih =>
      have hlast : ∀ entry ∈ d.pairs, entry.1 < pair.1 := fun entry hentry =>
        (List.pairwise_append.mp ascending).2.2 entry hentry pair List.mem_cons_self
      have inserted : (d.insert pair.1 pair.2).pairs = d.pairs ++ [pair] :=
        Pairs.insert_last pair.2 hlast
      rw [List.append_cons, ← inserted] at ascending ⊢
      exact ih ascending

theorem pairs_ofPairs {pairs : Pairs α} (ascending : pairs.Ascending) :
    (ofPairs pairs).pairs = pairs :=
  pairs_foldl_insert ascending

end Dictionary

end DocViews
