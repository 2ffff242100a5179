/-!
Values under string keys, the keys ascending. The order of a dictionary is part of what it is:
two dictionaries that answer every lookup alike are the same, and whatever walks through one
meets the keys in code point order.
-/

namespace DocViews

/-- Values with their keys, in any order. -/
abbrev Pairs (α : Type) := List (String × α)

namespace Pairs

variable {α : Type}

/-- Every key comes before all keys after it, so no key occurs twice. -/
def Ascending (pairs : Pairs α) : Prop :=
  pairs.Pairwise fun a b => a.1 < b.1

instance (pairs : Pairs α) : Decidable pairs.Ascending :=
  inferInstanceAs (Decidable (List.Pairwise _ pairs))

/-- The first value under a key. -/
def find? (key : String) : Pairs α → Option α
  | [] => none
  | (k, v) :: rest => if k = key then some v else find? key rest

/-- Puts a value under a key, in front of the first key that is not before it. -/
def insert (key : String) (value : α) : Pairs α → Pairs α
  | [] => [(key, value)]
  | (k, v) :: rest =>
      if key < k then (key, value) :: (k, v) :: rest
      else if key = k then (key, value) :: rest
      else (k, v) :: insert key value rest

/-- Removes a key and its values. -/
def erase (key : String) : Pairs α → Pairs α
  | [] => []
  | (k, v) :: rest => if k = key then erase key rest else (k, v) :: erase key rest

theorem find?_insert_self (key : String) (value : α) (pairs : Pairs α) :
    find? key (insert key value pairs) = some value := by
  induction pairs with
  | nil => simp [insert, find?]
  | cons entry rest ih =>
      obtain ⟨k, v⟩ := entry
      by_cases hlt : key < k
      · simp [insert, find?, hlt]
      · by_cases heq : key = k
        · simp [insert, find?, heq]
        · simp [insert, find?, hlt, heq, Ne.symm heq, ih]

theorem find?_insert_of_ne {key other : String} (h : key ≠ other) (value : α)
    (pairs : Pairs α) :
    find? other (insert key value pairs) = find? other pairs := by
  induction pairs with
  | nil => simp [insert, find?, h]
  | cons entry rest ih =>
      obtain ⟨k, v⟩ := entry
      by_cases hlt : key < k
      · simp [insert, find?, hlt, h]
      · by_cases heq : key = k
        · subst heq
          simp [insert, find?, h]
        · simp [insert, find?, hlt, heq, ih]

theorem find?_erase_self (key : String) (pairs : Pairs α) :
    find? key (erase key pairs) = none := by
  induction pairs with
  | nil => rfl
  | cons entry rest ih =>
      obtain ⟨k, v⟩ := entry
      by_cases h : k = key <;> simp [erase, find?, h, ih]

theorem find?_erase_of_ne {key other : String} (h : key ≠ other)
    (pairs : Pairs α) :
    find? other (erase key pairs) = find? other pairs := by
  induction pairs with
  | nil => rfl
  | cons entry rest ih =>
      obtain ⟨k, v⟩ := entry
      by_cases hk : k = key
      · subst hk
        simp [erase, find?, h, ih]
      · simp [erase, find?, hk, ih]

theorem mem_insert {key : String} {value : α} {pairs : Pairs α}
    {pair : String × α} (h : pair ∈ insert key value pairs) :
    pair = (key, value) ∨ pair ∈ pairs := by
  induction pairs with
  | nil => simpa [insert] using h
  | cons entry rest ih =>
      obtain ⟨k, v⟩ := entry
      rw [insert] at h
      split at h
      · simpa using h
      · split at h
        · rcases List.mem_cons.1 h with h | h
          · exact .inl h
          · exact .inr (List.mem_cons_of_mem _ h)
        · rcases List.mem_cons.1 h with h | h
          · exact .inr (h ▸ List.mem_cons_self)
          · exact (ih h).imp_right (List.mem_cons_of_mem _)

theorem Ascending.insert {pairs : Pairs α} (h : pairs.Ascending)
    (key : String) (value : α) : Ascending (Pairs.insert key value pairs) := by
  induction pairs with
  | nil => exact List.pairwise_singleton _ _
  | cons entry rest ih =>
      obtain ⟨k, v⟩ := entry
      have hrest := List.pairwise_cons.1 h
      rw [Pairs.insert]
      split
      · rename_i hlt
        refine List.pairwise_cons.2 ⟨fun pair hpair => ?_, h⟩
        rcases List.mem_cons.1 hpair with rfl | hpair
        · exact hlt
        · exact String.lt_trans hlt (hrest.1 pair hpair)
      · rename_i hge
        split
        · rename_i heq
          subst heq
          exact List.pairwise_cons.2 hrest
        · rename_i hne
          have hlt : k < key :=
            Std.lt_of_le_of_ne (String.not_lt.1 hge) (Ne.symm hne)
          refine List.pairwise_cons.2 ⟨fun pair hpair => ?_, ih hrest.2⟩
          rcases mem_insert hpair with rfl | hpair
          · exact hlt
          · exact hrest.1 pair hpair

theorem erase_sublist (key : String) (pairs : Pairs α) : (erase key pairs).Sublist pairs := by
  induction pairs with
  | nil => exact List.Sublist.refl _
  | cons entry rest ih =>
      obtain ⟨k, v⟩ := entry
      rw [erase]
      split
      · exact ih.cons _
      · exact ih.cons_cons _

theorem Ascending.erase {pairs : Pairs α} (h : pairs.Ascending) (key : String) :
    Ascending (Pairs.erase key pairs) :=
  h.sublist (erase_sublist key pairs)

/-- Values are made into others, or left out, under the keys that they have. -/
def mapValues {β : Type} (f : α → Option β) (pairs : Pairs α) : Pairs β :=
  pairs.filterMap fun (k, v) => (f v).map (k, ·)

theorem Ascending.mapValues {β : Type} {pairs : Pairs α} (h : pairs.Ascending)
    (f : α → Option β) : Ascending (pairs.mapValues f) := by
  refine List.pairwise_filterMap.mpr (h.imp fun {a b} lt a' ha b' hb => ?_)
  obtain ⟨x, -, rfl⟩ := Option.map_eq_some_iff.mp ha
  obtain ⟨y, -, rfl⟩ := Option.map_eq_some_iff.mp hb
  exact lt

end Pairs

@[ext]
structure Dictionary (α : Type) where
  pairs : Pairs α
  ascending : pairs.Ascending

namespace Dictionary

variable {α : Type}

def empty : Dictionary α := ⟨[], .nil⟩

/-- The value under a key. -/
def find? (key : String) (d : Dictionary α) : Option α := d.pairs.find? key

/-- Puts a value under a key; a value that was there before is replaced. -/
def insert (key : String) (value : α) (d : Dictionary α) : Dictionary α :=
  ⟨d.pairs.insert key value, d.ascending.insert key value⟩

/-- Removes a key and its value. -/
def erase (key : String) (d : Dictionary α) : Dictionary α :=
  ⟨d.pairs.erase key, d.ascending.erase key⟩

def mapValues {β : Type} (f : α → Option β) (d : Dictionary α) : Dictionary β :=
  ⟨d.pairs.mapValues f, d.ascending.mapValues f⟩

/-- Inserts the pairs one after another, so that the last value of a key stays. -/
def ofPairs (pairs : Pairs α) : Dictionary α :=
  pairs.foldl (fun d pair => d.insert pair.1 pair.2) empty

def keys (d : Dictionary α) : List String := d.pairs.map (·.1)

instance [BEq α] : BEq (Dictionary α) := ⟨fun a b => a.pairs == b.pairs⟩

@[simp]
theorem pairs_empty : (empty : Dictionary α).pairs = [] := rfl

theorem find?_insert_self (key : String) (value : α) (d : Dictionary α) :
    (d.insert key value).find? key = some value :=
  Pairs.find?_insert_self key value d.pairs

theorem find?_insert_of_ne {key other : String} (h : key ≠ other) (value : α)
    (d : Dictionary α) : (d.insert key value).find? other = d.find? other :=
  Pairs.find?_insert_of_ne h value d.pairs

theorem find?_erase_self (key : String) (d : Dictionary α) : (d.erase key).find? key = none :=
  Pairs.find?_erase_self key d.pairs

theorem find?_erase_of_ne {key other : String} (h : key ≠ other) (d : Dictionary α) :
    (d.erase key).find? other = d.find? other :=
  Pairs.find?_erase_of_ne h d.pairs

end Dictionary

end DocViews
