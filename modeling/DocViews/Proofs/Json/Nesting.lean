import DocViews.Json.RecordText
import DocViews.Proofs.Json.Values
import DocViews.Proofs.Ties

/-!
How deep values are nested, and nothing else, decides whether their texts can be read. What
was read from some text is not too deep to be read again, whatever its numbers have become;
it is too deep inside of a text that has no level to spare for it. Nothing but the floats of a
value is changed by being written and read.
-/

namespace DocViews.Json

/-- A value with at most so many levels of arrays and objects, and with dictionaries for its
objects. -/
inductive Nested : Nat → Value → Prop where
  | null {levels : Nat} : Nested levels .null
  | bool {levels : Nat} (b : Bool) : Nested levels (.bool b)
  | number {levels : Nat} (n : Number) : Nested levels (.number n)
  | string {levels : Nat} (s : String) : Nested levels (.string s)
  | array {levels : Nat} {items : List Value} (nested : ∀ item ∈ items, Nested levels item) :
      Nested (levels + 1) (.array items)
  | object {levels : Nat} {members : Dictionary Value}
      (nested : ∀ member ∈ members.pairs, Nested levels member.2) :
      Nested (levels + 1) (.object members.pairs)

section Reading

variable {α β : Type}

theorem bind_ok {x : Except Failure α} {f : α → Except Failure β} {b : β} (h : x >>= f = .ok b) :
    ∃ a, x = .ok a ∧ f a = .ok b := by
  cases x with
  | error failure => cases h
  | ok a => exact ⟨a, rfl, h⟩

variable {item : Bytes → Except Failure (α × Bytes)} {P : α → Prop}

/-- Each item is what the reader of items has read. -/
theorem laterItems_forall (each : ∀ input read, item input = .ok read → P read.1)
    {bound input : Bytes} {read : List α × Bytes} (h : laterItems item bound input = .ok read) :
    ∀ a ∈ read.1, P a := by
  induction bound generalizing input read with
  | nil => cases h
  | cons _ bound ih =>
      rw [laterItems] at h
      split at h
      · cases h
      · cases h
        simp
      · split at h
        · cases h
        · cases h
        · obtain ⟨first, hfirst, h⟩ := bind_ok h
          obtain ⟨later, hlater, h⟩ := bind_ok h
          cases h
          intro a ha
          rcases List.mem_cons.mp ha with rfl | ha
          · exact each _ _ hfirst
          · exact ih hlater a ha
      · cases h

theorem items_forall (each : ∀ input read, item input = .ok read → P read.1) {input : Bytes}
    {read : List α × Bytes} (h : items item input = .ok read) : ∀ a ∈ read.1, P a := by
  rw [items] at h
  split at h
  · cases h
  · cases h
    simp
  · obtain ⟨first, hfirst, h⟩ := bind_ok h
    obtain ⟨later, hlater, h⟩ := bind_ok h
    cases h
    intro a ha
    rcases List.mem_cons.mp ha with rfl | ha
    · exact each _ _ hfirst
    · exact laterItems_forall each hlater a ha

variable {member : String → α → Bytes → Except Failure (α × Bytes)}

/-- What every member keeps is kept by all of them. -/
theorem laterMembers_keep
    (each : ∀ key state input read, P state → member key state input = .ok read → P read.1)
    {bound input : Bytes} {state : α} {read : α × Bytes} (start : P state)
    (h : laterMembers member bound state input = .ok read) : P read.1 := by
  induction bound generalizing input state read with
  | nil => cases h
  | cons _ bound ih =>
      rw [laterMembers] at h
      split at h
      · cases h
      · cases h
        exact start
      · split at h
        · cases h
        · obtain ⟨key, hkey, h⟩ := bind_ok h
          obtain ⟨next, hnext, h⟩ := bind_ok h
          exact ih (each _ _ _ _ start hnext) h
        · cases h
        · cases h
      · cases h

theorem members_keep
    (each : ∀ key state input read, P state → member key state input = .ok read → P read.1)
    {input : Bytes} {state : α} {read : α × Bytes} (start : P state)
    (h : members member state input = .ok read) : P read.1 := by
  rw [members] at h
  split at h
  · cases h
  · cases h
    exact start
  · obtain ⟨key, hkey, h⟩ := bind_ok h
    obtain ⟨next, hnext, h⟩ := bind_ok h
    exact laterMembers_keep each (each _ _ _ _ start hnext) h
  · cases h

end Reading

theorem scalar_nested {levels : Nat} {input : Bytes} {read : Value × Bytes}
    (h : scalar input = .ok read) : Nested levels read.1 := by
  unfold scalar at h
  split at h
  · cases h
  · obtain ⟨rest, -, h⟩ := bind_ok h
    cases h
    exact .null
  · obtain ⟨rest, -, h⟩ := bind_ok h
    cases h
    exact .bool true
  · obtain ⟨rest, -, h⟩ := bind_ok h
    cases h
    exact .bool false
  · obtain ⟨s, -, h⟩ := bind_ok h
    cases h
    exact .string s.1
  · split at h
    · obtain ⟨n, -, h⟩ := bind_ok h
      cases h
      exact .number n.1
    · cases h

/-- Each member has the value that was read for it. -/
theorem memberOf_nested {levels : Nat} {reader : Bytes → Except Failure (Value × Bytes)}
    (each : ∀ input read, reader input = .ok read → Nested levels read.1) {key : String}
    {before : Dictionary Value} {input : Bytes} {read : Dictionary Value × Bytes}
    (start : ∀ member ∈ before.pairs, Nested levels member.2)
    (h : memberOf reader key before input = .ok read) :
    ∀ member ∈ read.1.pairs, Nested levels member.2 := by
  obtain ⟨rest, -, h⟩ := bind_ok h
  obtain ⟨v, hv, h⟩ := bind_ok h
  cases h
  intro member hmember
  rcases Dictionary.mem_insert hmember with rfl | hmember
  · exact each _ _ hv
  · exact start member hmember

/-- What is read with so many levels has so many at most. -/
theorem value_nested {levels : Nat} {input : Bytes} {read : Value × Bytes}
    (h : value levels input = .ok read) : Nested levels read.1 := by
  induction levels generalizing input read with
  | zero =>
      unfold value at h
      split at h
      · cases h
      · cases h
      · next heq _ => cases heq
      · next heq _ => cases heq
      · exact scalar_nested h
  | succ levels ih =>
      unfold value at h
      split at h
      · next heq _ => cases heq
      · next heq _ => cases heq
      · next heq _ =>
          cases heq
          obtain ⟨items, hitems, h⟩ := bind_ok h
          cases h
          exact .array (items_forall (fun _ _ => ih) hitems)
      · next heq _ =>
          cases heq
          obtain ⟨members, hmembers, h⟩ := bind_ok h
          cases h
          have each : ∀ key (before : Dictionary Value) input read,
              (∀ member ∈ before.pairs, Nested levels member.2) →
              memberOf (value levels) key before input = .ok read →
              ∀ member ∈ read.1.pairs, Nested levels member.2 :=
            fun _ _ _ _ start h => memberOf_nested (fun _ _ => ih) start h
          exact .object (members_keep each (by simp) hmembers)
      · exact scalar_nested h

theorem exists_forall₂ {α β : Type} {R : α → β → Prop} {xs : List α}
    (h : ∀ x ∈ xs, ∃ y, R x y) : ∃ ys, List.Forall₂ R xs ys := by
  induction xs with
  | nil => exact ⟨[], .nil⟩
  | cons x xs ih =>
      obtain ⟨y, hy⟩ := h x List.mem_cons_self
      obtain ⟨ys, hys⟩ := ih fun x hx => h x (List.mem_cons_of_mem _ hx)
      exact ⟨y :: ys, .cons hy hys⟩

theorem keys_of_forall₂ {levels : Nat} {members reads : List (String × Value)}
    (h : List.Forall₂ (MemberReadAs levels) members reads) :
    reads.map (·.1) = members.map (·.1) := by
  induction h with
  | nil => rfl
  | cons first _ ih => rw [List.map_cons, List.map_cons, ih, first.1]

/-- What a number is read as from its own text: an integer as it is, while a float is rounded
twice. -/
def Number.reread : Number → Number
  | .integer n => .integer n
  | .float x => .float (Json.reread x)

/-- Whether a value becomes the other if each number is replaced by what its text is read as. -/
def Value.Rereads : Value → Value → Prop := Value.Alike fun x y => y = x.reread

theorem number_reread (n : Number) {rest : Bytes} (ends : EndsNumeral rest) :
    number (Utf8.encode n.chars ++ rest) = .ok (n.reread, rest) := by
  cases n with
  | integer n => exact number_integerChars n ends
  | float x => exact number_floatChars x ends

/-- A value that is not too deep is read as one with the same numbers, but for their floats. -/
theorem Nested.readAs {levels : Nat} {v : Value} (h : Nested levels v) :
    ∃ read, ReadAs levels v read ∧ v.Rereads read := by
  induction h with
  | null => exact ⟨_, readBack_null, .null⟩
  | bool b => exact ⟨_, readBack_bool b, .bool b⟩
  | number n => exact ⟨_, readAs_number fun _ => number_reread n, .number rfl⟩
  | string s => exact ⟨_, readBack_string s, .string s⟩
  | @array levels items _ back =>
      obtain ⟨reads, hreads⟩ := exists_forall₂ back
      exact ⟨_, readAs_array (hreads.imp fun _ _ h => h.1), .array (hreads.imp fun _ _ h => h.2)⟩
  | @object levels members _ back =>
      have each : ∀ member ∈ members.pairs, ∃ read,
          MemberReadAs levels member read ∧ member.2.Rereads read.2 := by
        intro member hmember
        obtain ⟨read, hread, rereads⟩ := back member hmember
        exact ⟨(member.1, read), ⟨rfl, hread⟩, rereads⟩
      obtain ⟨reads, hreads⟩ := exists_forall₂ each
      have hmembers : List.Forall₂ (MemberReadAs levels) members.pairs reads :=
        hreads.imp fun _ _ h => h.1
      have keys := keys_of_forall₂ hmembers
      have ascending := List.pairwise_map.mpr members.ascending
      refine ⟨.object reads, readAs_object_of_keys _ keys ascending hmembers,
        .object keys.symm ?_⟩
      rw [List.forall₂_map_left_iff, List.forall₂_map_right_iff]
      exact hreads.imp fun _ _ h => h.2

theorem forall₂_unique {α β : Type} {R : α → β → Prop} {xs : List α}
    (each : ∀ x ∈ xs, ∀ y z, R x y → R x z → y = z) {ys zs : List β}
    (first : List.Forall₂ R xs ys) (second : List.Forall₂ R xs zs) : ys = zs := by
  induction first generalizing zs with
  | nil =>
      cases second
      rfl
  | @cons x y xs ys hy _ ih =>
      obtain ⟨z, zs, hz, later, rfl⟩ := List.forall₂_cons_left_iff.mp second
      rw [each x List.mem_cons_self y z hy hz,
        ih (fun x hx => each x (List.mem_cons_of_mem _ hx)) later]

/-- What a value is read as is settled by the value. -/
theorem Value.Rereads.unique {v read other : Value} (first : v.Rereads read)
    (second : v.Rereads other) : read = other := by
  -- Both readings have the shape of the value, so it is the value that is taken apart.
  induction v using Value.induction generalizing read other with
  | null => cases first; cases second; rfl
  | bool b => cases first; cases second; rfl
  | number n =>
      cases first with
      | number hread =>
          cases second with
          | number hother => rw [hread, hother]
  | string s => cases first; cases second; rfl
  | array items ih =>
      cases first with
      | array reads =>
          cases second with
          | array others => rw [forall₂_unique (fun item hitem _ _ => ih item hitem) reads others]
  | object members ih =>
      cases first with
      | object keys reads =>
          cases second with
          | object keys' others =>
              have same : ∀ member ∈ members, ∀ x y : String × Value,
                  member.1 = x.1 ∧ member.2.Rereads x.2 → member.1 = y.1 ∧ member.2.Rereads y.2 →
                    x = y :=
                fun member hmember x y hx hy =>
                  Prod.ext (hx.1.symm.trans hy.1) (ih member hmember hx.2 hy.2)
              rw [forall₂_unique same (forall₂_members.mpr ⟨keys, reads⟩)
                (forall₂_members.mpr ⟨keys', others⟩)]

theorem Nested.succ {levels : Nat} {v : Value} (h : Nested levels v) : Nested (levels + 1) v := by
  induction h with
  | null => exact .null
  | bool b => exact .bool b
  | number n => exact .number n
  | string s => exact .string s
  | array _ ih => exact .array ih
  | object _ ih => exact .object ih

theorem Nested.ofBinary64 {levels : Nat} (x : Binary64) : Nested levels (.ofBinary64 x) := by
  cases x with
  | finite x => exact .number (.float x)
  | _ => exact .null

theorem Nested.ofInt {levels : Nat} (n : Int) : Nested levels (.ofInt n) := by
  unfold Value.ofInt
  cases Number.ofInt? n with
  | some number => exact .number number
  | none => exact .ofBinary64 (Binary64.ofInt n)

/-- The first items of an array make an array that is nested no deeper. -/
theorem Nested.take {levels : Nat} {items : List Value} (h : Nested levels (.array items))
    (length : Nat) : Nested levels (.array (items.take length)) := by
  cases h with
  | array nested => exact .array fun item hitem => nested item (List.mem_of_mem_take hitem)

/-- Whether a value is what some text holds. -/
def Decodable (v : Value) : Prop := ∃ text, read text = .ok v

/-- Whether a value is what some text holds as the item of an array, and so with a level of
nesting to spare. -/
def DecodableInside (v : Value) : Prop := Decodable (.array [v])

theorem readAll_inv {α : Type} {reader : Bytes → Except Failure (α × Bytes)} {text : Bytes} {a : α}
    (h : readAll reader text = .ok a) : ∃ rest, reader text = .ok (a, rest) := by
  unfold readAll at h
  cases hread : reader text with
  | error failure =>
      rw [hread] at h
      cases h
  | ok read =>
      obtain ⟨result, rest⟩ := read
      simp only [hread, bind, Except.bind] at h
      split at h
      · cases h
        exact ⟨rest, rfl⟩
      · cases h

theorem Decodable.nested {v : Value} (h : Decodable v) : Nested maxLevels v := by
  obtain ⟨text, hread⟩ := h
  obtain ⟨rest, hvalue⟩ := readAll_inv hread
  exact value_nested hvalue

theorem DecodableInside.nested {v : Value} (h : DecodableInside v) : Nested fieldLevels v := by
  have hnested : Nested (fieldLevels + 1) (.array [v]) := Decodable.nested h
  cases hnested with
  | array nested => exact nested v List.mem_cons_self

/-- What some text holds is read as something from its own text. -/
theorem Decodable.readString {v : Value} (h : Decodable v) :
    ∃ read, Json.readString v.text = .ok read := by
  obtain ⟨read, hread, -⟩ := h.nested.readAs
  exact ⟨read, hread.readString⟩

/-- A value that leaves a level to spare is read inside of another one as what it is read as
alone. -/
theorem Nested.readAs_of_read {v again : Value} (h : Nested fieldLevels v)
    (alone : read v.bytes = .ok again) : ReadAs fieldLevels v again := by
  obtain ⟨inside, hinside, rereads⟩ := h.readAs
  obtain ⟨outside, houtside, rereads'⟩ := h.succ.readAs
  obtain rfl : outside = again := Except.ok.inj (houtside.read.symm.trans alone)
  exact rereads.unique rereads' ▸ hinside

end DocViews.Json
