import DocViews.Index.Selection
import DocViews.Proofs.Index.Groups
import DocViews.Proofs.Numeric.Exactness
import Mathlib.Data.List.Forall2

/-!
Which keys tie. Two keys tie if they are the same but for their numbers, and each two numbers in
the same place become the same float. So keys that are the same always tie, and keys that are not
tie only where an integer has more digits than a float.
-/

namespace DocViews

open Json (Number)

namespace Json.Value

/-- Two values that are the same but for their numbers, of which each two in the same place are
related. -/
inductive Alike (numbers : Number → Number → Prop) : Value → Value → Prop where
  | null : Alike numbers .null .null
  | bool (b : Bool) : Alike numbers (.bool b) (.bool b)
  | number {x y : Number} (related : numbers x y) : Alike numbers (.number x) (.number y)
  | string (s : String) : Alike numbers (.string s) (.string s)
  | array {xs ys : List Value} (items : List.Forall₂ (Alike numbers) xs ys) :
      Alike numbers (.array xs) (.array ys)
  | object {xs ys : List (String × Value)} (keys : xs.map (·.1) = ys.map (·.1))
      (values : List.Forall₂ (Alike numbers) (xs.map (·.2)) (ys.map (·.2))) :
      Alike numbers (.object xs) (.object ys)

/-- Whether two values are the same if a number is what its value is, however it is written. -/
def Same : Value → Value → Prop := Alike fun x y => x.units = y.units

/-- Whether a value has a number somewhere in it. -/
inductive Has (x : Number) : Value → Prop where
  | number : Has x (.number x)
  | array {items : List Value} {item : Value} (mem : item ∈ items) (has : Has x item) :
      Has x (.array items)
  | object {members : List (String × Value)} {member : String × Value}
      (mem : member ∈ members) (has : Has x member.2) : Has x (.object members)

/-- Whether every number in a value has the value of a binary64 number. -/
def Doubles (v : Value) : Prop := ∀ x, v.Has x → x.IsDouble

theorem doubles_null : Doubles .null := by
  intro x h
  cases h

theorem doubles_number {x : Number} (exact : x.IsDouble) : (Value.number x).Doubles := by
  intro y h
  cases h
  exact exact

theorem doubles_array {items : List Value} (h : ∀ item ∈ items, item.Doubles) :
    (Value.array items).Doubles := by
  intro x hx
  cases hx with
  | array mem has => exact h _ mem x has

theorem doubles_object {members : List (String × Value)}
    (h : ∀ member ∈ members, member.2.Doubles) : (Value.object members).Doubles := by
  intro x hx
  cases hx with
  | object mem has => exact h _ mem x has

end Json.Value

open Json (Value)
open Json.Value (SameKind sameKind_of_rank Alike Same Doubles)

section Lists

variable {α : Type} {cmp : α → α → Ordering} {R S : α → α → Prop}

/-- Lists tie if they tie item by item. -/
theorem compareLex_eq_eq_iff {xs ys : List α} (items : ∀ x ∈ xs, ∀ y, cmp x y = .eq ↔ R x y) :
    List.compareLex cmp xs ys = .eq ↔ List.Forall₂ R xs ys := by
  induction xs generalizing ys with
  | nil => cases ys <;> simp [List.compareLex_nil_nil, List.compareLex_nil_cons]
  | cons x xs ih =>
      cases ys with
      | nil => simp [List.compareLex_cons_nil]
      | cons y ys =>
          rw [List.compareLex_cons_cons, Ordering.then_eq_eq, List.forall₂_cons,
            items x List.mem_cons_self y, ih fun x hx => items x (List.mem_cons_of_mem _ hx)]

theorem forall₂_imp_of_mem {xs ys : List α} (related : List.Forall₂ R xs ys)
    (step : ∀ x ∈ xs, ∀ y ∈ ys, R x y → S x y) : List.Forall₂ S xs ys := by
  induction related with
  | nil => exact .nil
  | cons first later ih =>
      refine .cons (step _ List.mem_cons_self _ List.mem_cons_self first) (ih ?_)
      intro x hx y hy
      exact step x (List.mem_cons_of_mem _ hx) y (List.mem_cons_of_mem _ hy)

theorem forall₂_members {R : Value → Value → Prop} {xs ys : List (String × Value)} :
    List.Forall₂ (fun m n => m.1 = n.1 ∧ R m.2 n.2) xs ys ↔
      xs.map (·.1) = ys.map (·.1) ∧ List.Forall₂ R (xs.map (·.2)) (ys.map (·.2)) := by
  induction xs generalizing ys with
  | nil => cases ys <;> simp
  | cons m xs ih =>
      cases ys with
      | nil => simp
      | cons n ys =>
          simp only [List.forall₂_cons, List.map_cons, List.cons.injEq, ih]
          constructor
          · rintro ⟨⟨key, value⟩, keys, values⟩
            exact ⟨⟨key, keys⟩, value, values⟩
          · rintro ⟨⟨key, keys⟩, value, values⟩
            exact ⟨⟨key, value⟩, keys, values⟩

end Lists

/-- Whether two numbers become the same float. -/
def Json.Number.Rounded (x y : Number) : Prop := x.toDouble.units = y.toDouble.units

theorem Json.Value.Alike.rank_eq {numbers : Number → Number → Prop} {a b : Value}
    (alike : Alike numbers a b) : a.rank = b.rank := by
  cases alike <;> rfl

/-- Values of different kinds neither tie nor are alike, so only those of one kind matter. -/
theorem collate_eq_eq_of_sameKind {numbers : Number → Number → Prop} {a b : Value}
    (alike : SameKind a b → (collate a b = .eq ↔ Alike numbers a b)) :
    collate a b = .eq ↔ Alike numbers a b := by
  by_cases h : a.rank = b.rank
  · exact alike (sameKind_of_rank h)
  · rw [collate_of_rank_ne h, Nat.compare_eq_eq]
    exact ⟨fun heq => absurd heq h, fun halike => absurd halike.rank_eq h⟩

/-- What ties. -/
theorem collate_eq_eq_iff_alike (a b : Value) :
    collate a b = .eq ↔ Alike Json.Number.Rounded a b := by
  induction a using Value.induction generalizing b with
  | null =>
      refine collate_eq_eq_of_sameKind fun kind => ?_
      cases kind
      exact ⟨fun _ => .null, fun _ => rfl⟩
  | bool p =>
      refine collate_eq_eq_of_sameKind fun kind => ?_
      cases kind
      refine ⟨fun _ => .bool p, fun _ => ?_⟩
      cases p <;> rfl
  | number x =>
      refine collate_eq_eq_of_sameKind fun kind => ?_
      cases kind
      simp only [collate, Std.LawfulEqOrd.compare_eq_iff_eq]
      constructor
      · intro rounded
        exact .number rounded
      · intro alike
        cases alike with
        | number rounded => exact rounded
  | string s =>
      refine collate_eq_eq_of_sameKind fun kind => ?_
      cases kind
      simp only [collate, Std.LawfulEqOrd.compare_eq_iff_eq]
      constructor
      · rintro rfl
        exact .string s
      · rintro ⟨⟩
        rfl
  | array xs ih =>
      refine collate_eq_eq_of_sameKind fun kind => ?_
      cases kind
      simp only [collate, collateItems_eq]
      rw [compareLex_eq_eq_iff ih]
      constructor
      · intro items
        exact .array items
      · intro alike
        cases alike with
        | array items => exact items
  | object xs ih =>
      refine collate_eq_eq_of_sameKind fun kind => ?_
      cases kind
      have members : ∀ m ∈ xs, ∀ n, collateMember m n = .eq ↔
          m.1 = n.1 ∧ Alike Json.Number.Rounded m.2 n.2 := by
        intro m hm n
        rw [collateMember, Ordering.then_eq_eq, Std.LawfulEqOrd.compare_eq_iff_eq, ih m hm n.2]
      simp only [collate, collateMembers_eq]
      rw [compareLex_eq_eq_iff members, forall₂_members]
      constructor
      · rintro ⟨keys, values⟩
        exact .object keys values
      · intro alike
        cases alike with
        | object keys values => exact ⟨keys, values⟩

namespace Json.Value

/-- Values stay alike if their numbers do. -/
theorem Alike.imp {numbers others : Number → Number → Prop} {a b : Value}
    (alike : Alike numbers a b) (step : ∀ x y, a.Has x → b.Has y → numbers x y → others x y) :
    Alike others a b := by
  induction a using Value.induction generalizing b with
  | null => cases alike with | null => exact .null
  | bool p => cases alike with | bool => exact .bool p
  | number x =>
      cases alike with
      | number related => exact .number (step _ _ .number .number related)
  | string s => cases alike with | string => exact .string s
  | array xs ih =>
      cases alike with
      | array items =>
          refine .array (forall₂_imp_of_mem items fun x hx y hy halike => ih x hx halike ?_)
          intro m n hm hn
          exact step m n (.array hx hm) (.array hy hn)
  | object xs ih =>
      cases alike with
      | object keys values =>
          refine .object keys (forall₂_imp_of_mem values fun x hx y hy halike => ?_)
          obtain ⟨member, hmember, rfl⟩ := List.mem_map.mp hx
          obtain ⟨other, hother, rfl⟩ := List.mem_map.mp hy
          refine ih member hmember halike ?_
          intro m n hm hn
          exact step m n (.object hmember hm) (.object hother hn)

theorem forall₂_and {α β : Type} {R S : α → β → Prop} {xs : List α} {ys : List β}
    (first : List.Forall₂ R xs ys) (second : List.Forall₂ S xs ys) :
    List.Forall₂ (fun x y => R x y ∧ S x y) xs ys := by
  induction first with
  | nil => exact .nil
  | cons head _ ih =>
      cases second with
      | cons head' tail' => exact .cons ⟨head, head'⟩ (ih tail')

/-- Values that are alike in two ways are so in both ways at once. -/
theorem Alike.and {R S : Number → Number → Prop} {a b : Value} (first : Alike R a b)
    (second : Alike S a b) : Alike (fun x y => R x y ∧ S x y) a b := by
  induction a using Value.induction generalizing b with
  | null => cases first with | null => exact .null
  | bool p => cases first with | bool => exact .bool p
  | number x =>
      cases first with
      | number related =>
          cases second with
          | number related' => exact .number ⟨related, related'⟩
  | string s => cases first with | string => exact .string s
  | array xs ih =>
      cases first with
      | array items =>
          cases second with
          | array items' =>
              refine .array (forall₂_imp_of_mem (forall₂_and items items') ?_)
              rintro x hx y - ⟨halike, halike'⟩
              exact ih x hx halike halike'
  | object xs ih =>
      cases first with
      | object keys values =>
          cases second with
          | object _ values' =>
              refine .object keys (forall₂_imp_of_mem (forall₂_and values values') ?_)
              rintro x hx y - ⟨halike, halike'⟩
              obtain ⟨member, hmember, rfl⟩ := List.mem_map.mp hx
              exact ih member hmember halike halike'

theorem exists_of_forall₂ {α β : Type} {R : α → β → Prop} {xs : List α} {ys : List β}
    (related : List.Forall₂ R xs ys) {x : α} (mem : x ∈ xs) : ∃ y, R x y := by
  induction related with
  | nil => cases mem
  | cons head _ ih =>
      rcases List.mem_cons.mp mem with rfl | mem
      · exact ⟨_, head⟩
      · exact ih mem

/-- Each number of the one has a number of the other in its place. -/
theorem Alike.exists_of_has {R : Number → Number → Prop} {a b : Value} (alike : Alike R a b)
    {x : Number} (has : a.Has x) : ∃ y, R x y := by
  induction has generalizing b with
  | number =>
      cases alike with
      | number related => exact ⟨_, related⟩
  | array mem _ ih =>
      cases alike with
      | array items =>
          obtain ⟨y, hy⟩ := exists_of_forall₂ items mem
          exact ih hy
  | object mem _ ih =>
      cases alike with
      | object _ values =>
          obtain ⟨y, hy⟩ := exists_of_forall₂ values (List.mem_map_of_mem mem)
          exact ih hy

/-- If one value comes from the other by a change of its numbers, then what is said of each two
numbers is said of every number and what it has become. -/
theorem Alike.iff_forall_has {R : Number → Number → Prop} {change : Number → Number}
    {a b : Value} (changed : Alike (fun x y => y = change x) a b) :
    Alike R a b ↔ ∀ x, a.Has x → R x (change x) := by
  constructor
  · intro alike x has
    obtain ⟨_, rfl, related⟩ := (changed.and alike).exists_of_has has
    exact related
  · intro each
    refine changed.imp ?_
    rintro x _ has - rfl
    exact each x has

end Json.Value

namespace Json.Number

variable {x y : Number}

/-- An integer that is not the value of a float is the value of no other number. -/
theorem rounded_of_units_eq (h : x.units = y.units) : Rounded x y := by
  unfold Rounded
  by_cases exact : x.IsDouble
  · have exact' : y.IsDouble := by
      obtain ⟨d, hd⟩ := exact
      exact ⟨d, hd.trans h⟩
    rw [exact.toDouble_units, exact'.toDouble_units, h]
  · cases x with
    | float d => exact absurd ⟨d, rfl⟩ exact
    | integer n =>
        cases y with
        | float d => exact absurd ⟨d, h.symm⟩ exact
        | integer m =>
            have hpos : (Double.unitsPerOne : Int) ≠ 0 := by
              have := Double.unitsPerOne_pos
              omega
            have hvalue : n.value = m.value := Int.eq_of_mul_eq_mul_right hpos h
            obtain ⟨n, _, _⟩ := n
            obtain ⟨m, _, _⟩ := m
            subst hvalue
            rfl

theorem units_eq_of_rounded (hx : x.IsDouble) (hy : y.IsDouble) (h : Rounded x y) :
    x.units = y.units := by
  rw [← hx.toDouble_units, ← hy.toDouble_units, h]

end Json.Number

theorem collate_eq_of_same {a b : Value} (same : Same a b) : collate a b = .eq := by
  rw [collate_eq_eq_iff_alike]
  exact same.imp fun x y _ _ h => Json.Number.rounded_of_units_eq h

theorem same_of_collate_eq {a b : Value} (ha : a.Doubles) (hb : b.Doubles)
    (tie : collate a b = .eq) : Same a b := by
  rw [collate_eq_eq_iff_alike] at tie
  exact tie.imp fun x y hx hy h => Json.Number.units_eq_of_rounded (ha x hx) (hb y hy) h

/-- A query for a key gives the entries whose keys tie with it. -/
theorem Index.mem_select_key {index : Index} {d : Direction} {key : Value} {e : Entry} :
    e ∈ (Selection.range (some key) none none true).select d (index.scan d) ↔
      e ∈ index.entries ∧ collate e.key key = .eq := by
  simp [Selection.select, Selection.admitsKey, Selection.admitsStart, Selection.admitsStop, sameKey,
    (index.scan_perm d).mem_iff]

/-- Two keys tie if they are the same but for numbers that become the same float. So keys that are
the same tie, and only such keys do as far as their numbers have the values of floats. Then a
query for a key gives the entries that have it and no others, and entries of one group all have
the same key. Integers of up to 53 binary digits, with zeros behind them, are such numbers; any
other integer ties with a float of another value. -/
theorem collate_eq_iff_same (a b : Value) :
    (collate a b = .eq ↔ Alike Json.Number.Rounded a b) ∧
      (Same a b → collate a b = .eq) ∧
      (a.Doubles → b.Doubles → (collate a b = .eq ↔ Same a b)) ∧
      (a.Doubles → ∀ (index : Index) (d : Direction), (∀ e ∈ index.entries, e.key.Doubles) →
        ∀ e, e ∈ (Selection.range (some a) none none true).select d (index.scan d) ↔
          e ∈ index.entries ∧ Same e.key a) ∧
      (∀ entries : List Entry, (∀ e ∈ entries, e.key.Doubles) →
        ∀ group ∈ Reduction.groups .exact entries, ∀ e ∈ group, ∀ f ∈ group, Same e.key f.key) ∧
      (∀ n : Json.Integer, (Number.integer n).IsDouble ↔
        ∃ digits zeros, digits < 2 ^ 53 ∧ n.value.natAbs = digits * 2 ^ zeros) ∧
      (∀ x : Number, ¬ x.IsDouble → ∃ d : Double,
        collate (.number x) (.number (.float d)) = .eq ∧
          ¬ Same (.number x) (.number (.float d))) := by
  have tie_iff : ∀ a b : Value, a.Doubles → b.Doubles → (collate a b = .eq ↔ Same a b) :=
    fun a b ha hb => ⟨same_of_collate_eq ha hb, collate_eq_of_same⟩
  refine ⟨collate_eq_eq_iff_alike a b, collate_eq_of_same, tie_iff a b, ?_, ?_, ?_, ?_⟩
  · intro ha index d hentries e
    rw [Index.mem_select_key]
    exact and_congr_right fun he => tie_iff e.key a (hentries e he) ha
  · intro entries hentries group hgroup e he f hf
    apply same_of_collate_eq
    · exact hentries e (Reduction.mem_of_mem_group hgroup he)
    · exact hentries f (Reduction.mem_of_mem_group hgroup hf)
    · exact Reduction.collate_eq_of_mem_group hgroup he hf
  · intro n
    exact Json.Number.isDouble_integer_iff
  · intro x inexact
    refine ⟨x.toDouble, ?_, ?_⟩
    · rw [collate_eq_eq_iff_alike]
      exact .number rfl
    · intro same
      cases same with
      | number value => exact inexact ⟨x.toDouble, value.symm⟩

section Sample

/-- The first integer above which not every integer is a float. -/
def lastInteger : Number := .integer ⟨9007199254740992, by decide, by decide⟩

/-- The same as a float: the digits are a one and 52 zeros. -/
def lastFloat : Number := .float ⟨false, 0x4340000000000000, by decide⟩

/-- The next integer has 54 binary digits, the last of them a one. -/
def nextInteger : Number := .integer ⟨9007199254740993, by decide, by decide⟩

/-- With 53 binary digits an integer is still told apart from all others, whatever array or object
it is part of. -/
theorem collate_eq_iff_same_last :
    (pairOfTwo lastInteger .null).Doubles ∧ (pairOfTwo lastFloat .null).Doubles ∧
      collate (pairOfTwo lastInteger .null) (pairOfTwo lastFloat .null) = .eq ∧
      Same (pairOfTwo lastInteger .null) (pairOfTwo lastFloat .null) := by
  obtain ⟨-, -, tie_iff, -, -, digits, -⟩ :=
    collate_eq_iff_same (pairOfTwo lastInteger .null) (pairOfTwo lastFloat .null)
  have doubles : ∀ x : Number, x.IsDouble → (pairOfTwo x .null).Doubles := by
    intro x hx
    refine Value.doubles_array ?_
    simp [Value.doubles_number hx, Value.doubles_object, Value.doubles_null]
  have hinteger : (pairOfTwo lastInteger .null).Doubles :=
    doubles _ ((digits _).mpr ⟨1, 53, by decide, by decide⟩)
  have hfloat : (pairOfTwo lastFloat .null).Doubles := doubles _ ⟨_, rfl⟩
  have tie : collate (pairOfTwo lastInteger .null) (pairOfTwo lastFloat .null) = .eq := by
    decide +kernel
  exact ⟨hinteger, hfloat, tie, (tie_iff hinteger hfloat).mp tie⟩

/-- The next integer ties with it, so a query for the one finds the other. -/
theorem collate_eq_nextInteger :
    collate (.number lastInteger) (.number nextInteger) = .eq ∧
      ¬ Same (.number lastInteger) (.number nextInteger) ∧
      ⟨"a", .number lastInteger, .null⟩ ∈
        (Selection.range (some (.number nextInteger)) none none true).select .ascending
          (Index.scan ⟨[⟨"a", .number lastInteger, .null⟩], none⟩ .ascending) := by
  have tie : collate (.number lastInteger) (.number nextInteger) = .eq := by decide +kernel
  refine ⟨tie, ?_, Index.mem_select_key.mpr ⟨List.mem_singleton_self _, tie⟩⟩
  intro same
  cases same with
  | number value =>
      have hpos : (Double.unitsPerOne : Int) ≠ 0 := by
        have := Double.unitsPerOne_pos
        omega
      exact absurd (Int.eq_of_mul_eq_mul_right hpos value) (by decide)

end Sample

end DocViews
