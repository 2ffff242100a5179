import DocViews.Index.Entry

/-!
The order of keys is a total preorder. Values compare by kind first, so what is left to show
is about values of one kind; arrays and objects compare as lists, by what their members
compare to. Keys that tie need not be the same, but no comparison tells them apart.
-/

namespace DocViews

namespace Json.Value

/-- Two values of one kind, where false and true are kinds of their own. -/
inductive SameKind : Value → Value → Prop where
  | null : SameKind .null .null
  | bool (b : Bool) : SameKind (.bool b) (.bool b)
  | number (x y : Number) : SameKind (.number x) (.number y)
  | string (s t : String) : SameKind (.string s) (.string t)
  | array (xs ys : List Value) : SameKind (.array xs) (.array ys)
  | object (xs ys : List (String × Value)) : SameKind (.object xs) (.object ys)

theorem sameKind_of_rank {a b : Value} (h : a.rank = b.rank) : SameKind a b := by
  rcases a with _ | (_ | _) | _ | _ | _ | _ <;> rcases b with _ | (_ | _) | _ | _ | _ | _
  all_goals first | constructor | cases h

/-- What holds of a value if it holds of its members holds of all values. -/
@[elab_as_elim]
theorem induction {motive : Value → Prop} (null : motive .null) (bool : ∀ b, motive (.bool b))
    (number : ∀ x, motive (.number x)) (string : ∀ s, motive (.string s))
    (array : ∀ items, (∀ item ∈ items, motive item) → motive (.array items))
    (object : ∀ members, (∀ member ∈ members, motive member.2) → motive (.object members)) :
    ∀ v, motive v
  | .null => null
  | .bool b => bool b
  | .number x => number x
  | .string s => string s
  | .array items => array items fun item hitem =>
      have _ : sizeOf item < sizeOf items := List.sizeOf_lt_of_mem hitem
      induction null bool number string array object item
  | .object members => object members fun member hmember =>
      have _ : sizeOf member < sizeOf members := List.sizeOf_lt_of_mem hmember
      induction null bool number string array object member.2
termination_by v => sizeOf v
decreasing_by
  · simp only [Value.array.sizeOf_spec]
    omega
  · obtain ⟨key, value⟩ := member
    simp only [Value.object.sizeOf_spec, Prod.mk.sizeOf_spec] at *
    omega

end Json.Value

open Json (Value)
open Json.Value (SameKind sameKind_of_rank)

/-- Whether three comparisons fit together: where two of the values tie, they compare alike with
the third, and where both comparisons go one way, so does the one between the ends. -/
structure Chained (xy yz xz : Ordering) : Prop where
  left : xy = .eq → xz = yz
  right : yz = .eq → xz = xy
  along : xy = yz → xz = xy

namespace Chained

variable {xy yz xz : Ordering}

theorem of_transCmp {α : Type} (cmp : α → α → Ordering) [Std.TransCmp cmp] (x y z : α) :
    Chained (cmp x y) (cmp y z) (cmp x z) where
  left h := Std.TransCmp.congr_left h
  right h := (Std.TransCmp.congr_right h).symm
  along h := by
    cases hxy : cmp x y with
    | lt => exact Std.TransCmp.lt_trans hxy (h ▸ hxy)
    | eq => exact Std.TransCmp.eq_trans hxy (h ▸ hxy)
    | gt => exact Std.TransCmp.gt_trans hxy (h ▸ hxy)

/-- A second criterion matters only where the first one ties all three values. -/
theorem thenCompare {xy' yz' xz' : Ordering} (first : Chained xy yz xz)
    (second : xy = .eq → yz = .eq → Chained xy' yz' xz') :
    Chained (xy.then xy') (yz.then yz') (xz.then xz') := by
  cases hxy : xy with
  | eq =>
      rw [first.left hxy]
      cases hyz : yz with
      | eq => exact second hxy hyz
      | lt => exact ⟨fun _ => rfl, nofun, Eq.symm⟩
      | gt => exact ⟨fun _ => rfl, nofun, Eq.symm⟩
  | lt =>
      cases hyz : yz with
      | eq =>
          rw [first.right hyz, hxy]
          exact ⟨nofun, fun _ => rfl, fun _ => rfl⟩
      | lt =>
          rw [first.along (hxy.trans hyz.symm), hxy]
          exact ⟨nofun, nofun, fun _ => rfl⟩
      | gt => exact ⟨nofun, nofun, nofun⟩
  | gt =>
      cases hyz : yz with
      | eq =>
          rw [first.right hyz, hxy]
          exact ⟨nofun, fun _ => rfl, fun _ => rfl⟩
      | lt => exact ⟨nofun, nofun, nofun⟩
      | gt =>
          rw [first.along (hxy.trans hyz.symm), hxy]
          exact ⟨nofun, nofun, fun _ => rfl⟩

theorem isLE (chained : Chained xy yz xz) (first : xy.isLE) (second : yz.isLE) : xz.isLE := by
  cases hxy : xy with
  | eq => rwa [chained.left hxy]
  | lt =>
      cases hyz : yz with
      | eq =>
          rw [chained.right hyz, hxy]
          rfl
      | lt =>
          rw [chained.along (hxy.trans hyz.symm), hxy]
          rfl
      | gt => simp [hyz] at second
  | gt => simp [hxy] at first

end Chained

section Lists

variable {α : Type} {cmp : α → α → Ordering}

/-- Lists compare the other way round if their members do. -/
theorem compareLex_swap {xs : List α} (members : ∀ x ∈ xs, ∀ y, cmp y x = (cmp x y).swap)
    (ys : List α) : List.compareLex cmp ys xs = (List.compareLex cmp xs ys).swap := by
  induction xs generalizing ys with
  | nil => cases ys <;> rfl
  | cons x xs ih =>
      cases ys with
      | nil => rfl
      | cons y ys =>
          have later := ih (fun x hx => members x (List.mem_cons_of_mem _ hx)) ys
          simp only [List.compareLex_cons_cons, Ordering.swap_then, later,
            members x List.mem_cons_self y]

/-- Comparisons of lists fit together if those of their members do. A list that has run out
comes before every list that has not. -/
theorem compareLex_chained {xs : List α}
    (members : ∀ x ∈ xs, ∀ y z, Chained (cmp x y) (cmp y z) (cmp x z)) (ys zs : List α) :
    Chained (List.compareLex cmp xs ys) (List.compareLex cmp ys zs)
      (List.compareLex cmp xs zs) := by
  induction xs generalizing ys zs with
  | nil =>
      cases ys with
      | nil => exact ⟨fun _ => rfl, fun h => h, Eq.symm⟩
      | cons y ys =>
          cases zs with
          | nil => exact ⟨nofun, nofun, nofun⟩
          | cons z zs => exact ⟨nofun, fun _ => rfl, fun _ => rfl⟩
  | cons x xs ih =>
      cases ys with
      | nil =>
          cases zs with
          | nil => exact ⟨nofun, fun _ => rfl, nofun⟩
          | cons z zs => exact ⟨nofun, nofun, nofun⟩
      | cons y ys =>
          cases zs with
          | nil => exact ⟨fun _ => rfl, nofun, Eq.symm⟩
          | cons z zs =>
              have later := ih (fun x hx => members x (List.mem_cons_of_mem _ hx)) ys zs
              simp only [List.compareLex_cons_cons]
              exact (members x List.mem_cons_self y z).thenCompare fun _ _ => later

end Lists

/-- Members of objects compare by their keys and then by their values. -/
def collateMember (m n : String × Value) : Ordering :=
  (compare m.1 n.1).then (collate m.2 n.2)

theorem collateItems_eq (xs ys : List Value) :
    collateItems xs ys = List.compareLex collate xs ys := by
  induction xs generalizing ys with
  | nil => cases ys <;> rfl
  | cons x xs ih =>
      cases ys with
      | nil => rfl
      | cons y ys => rw [List.compareLex_cons_cons, collateItems, ih]

theorem collateMembers_eq (xs ys : List (String × Value)) :
    collateMembers xs ys = List.compareLex collateMember xs ys := by
  induction xs generalizing ys with
  | nil => cases ys <;> rfl
  | cons x xs ih =>
      cases ys with
      | nil => rfl
      | cons y ys =>
          rw [List.compareLex_cons_cons, collateMembers, ih]
          rfl

theorem collate_of_rank_ne {a b : Value} (h : a.rank ≠ b.rank) :
    collate a b = compare a.rank b.rank := by
  cases a <;> cases b <;> first | rfl | exact absurd rfl h

/-- Kinds are compared before anything else. -/
theorem collate_eq_then (a b : Value) :
    collate a b = (compare a.rank b.rank).then (collate a b) := by
  by_cases h : a.rank = b.rank
  · rw [h, Nat.compare_eq_eq.mpr rfl]
    rfl
  · rw [collate_of_rank_ne h]
    cases compare a.rank b.rank <;> rfl

/-- Values of different kinds compare the other way round, so only those of one kind matter. -/
theorem collate_swap_of_sameKind {a b : Value}
    (alike : SameKind a b → collate b a = (collate a b).swap) :
    collate b a = (collate a b).swap := by
  by_cases h : a.rank = b.rank
  · exact alike (sameKind_of_rank h)
  · rw [collate_of_rank_ne h, collate_of_rank_ne (Ne.symm h)]
    exact Std.OrientedOrd.eq_swap

theorem collate_swap (a b : Value) : collate b a = (collate a b).swap := by
  induction a using Value.induction generalizing b with
  | null => exact collate_swap_of_sameKind fun | .null => rfl
  | bool p => exact collate_swap_of_sameKind fun | .bool false => rfl | .bool true => rfl
  | number x =>
      refine collate_swap_of_sameKind fun | .number _ y => ?_
      simp only [collate]
      exact Std.OrientedOrd.eq_swap
  | string s =>
      refine collate_swap_of_sameKind fun | .string _ t => ?_
      simp only [collate]
      exact Std.OrientedOrd.eq_swap
  | array xs ih =>
      refine collate_swap_of_sameKind fun | .array _ ys => ?_
      simp only [collate, collateItems_eq]
      exact compareLex_swap ih ys
  | object xs ih =>
      refine collate_swap_of_sameKind fun | .object _ ys => ?_
      simp only [collate, collateMembers_eq]
      refine compareLex_swap (fun m hm n => ?_) ys
      have keys : compare n.1 m.1 = (compare m.1 n.1).swap := Std.OrientedOrd.eq_swap
      simp only [collateMember, Ordering.swap_then, keys, ih m hm n.2]

/-- Comparisons of three values fit together if they do so among values of one kind. -/
theorem collate_chained_of_sameKind {a b c : Value}
    (alike : SameKind a b → SameKind b c → Chained (collate a b) (collate b c) (collate a c)) :
    Chained (collate a b) (collate b c) (collate a c) := by
  rw [collate_eq_then a b, collate_eq_then b c, collate_eq_then a c]
  refine (Chained.of_transCmp compare a.rank b.rank c.rank).thenCompare fun hab hbc => ?_
  exact alike (sameKind_of_rank (Nat.compare_eq_eq.mp hab))
    (sameKind_of_rank (Nat.compare_eq_eq.mp hbc))

theorem collate_chained (a b c : Value) :
    Chained (collate a b) (collate b c) (collate a c) := by
  have tied : Chained .eq .eq .eq := ⟨id, id, id⟩
  induction a using Value.induction generalizing b c with
  | null => exact collate_chained_of_sameKind fun | .null, .null => tied
  | bool p =>
      refine collate_chained_of_sameKind fun | .bool _, .bool _ => ?_
      cases p <;> exact tied
  | number x =>
      refine collate_chained_of_sameKind fun | .number _ y, .number _ z => ?_
      simp only [collate]
      exact .of_transCmp compare x.toDouble.units y.toDouble.units z.toDouble.units
  | string s =>
      refine collate_chained_of_sameKind fun | .string _ t, .string _ u => ?_
      simp only [collate]
      exact .of_transCmp compare s t u
  | array xs ih =>
      refine collate_chained_of_sameKind fun | .array _ ys, .array _ zs => ?_
      simp only [collate, collateItems_eq]
      exact compareLex_chained ih ys zs
  | object xs ih =>
      refine collate_chained_of_sameKind fun | .object _ ys, .object _ zs => ?_
      simp only [collate, collateMembers_eq]
      refine compareLex_chained (fun m hm n o => ?_) ys zs
      exact (Chained.of_transCmp compare m.1 n.1 o.1).thenCompare fun _ _ => ih m hm n.2 o.2

instance : Std.TransCmp collate where
  eq_swap := collate_swap _ _
  isLE_trans := (collate_chained _ _ _).isLE

/-- Entries compare by key and then by document. -/
instance : Std.TransCmp Entry.order where
  eq_swap {a b} := by
    have keys : collate a.key b.key = (collate b.key a.key).swap := Std.OrientedCmp.eq_swap
    have ids : compare a.id b.id = (compare b.id a.id).swap := Std.OrientedOrd.eq_swap
    simp only [Entry.order, Ordering.swap_then, keys, ids]
  isLE_trans {a b c} :=
    ((collate_chained a.key b.key c.key).thenCompare fun _ _ =>
      .of_transCmp compare a.id b.id c.id).isLE

/-- The order of keys is a total preorder: it is reflexive, comparing the other way round gives
the other answer, and it is transitive. So keys that tie are equivalent, and each can stand for
the other on either side of any comparison. Values of an earlier kind come first. -/
theorem collate_totalPreorder :
    (∀ a : Value, collate a a = .eq) ∧
      (∀ a b : Value, collate b a = (collate a b).swap) ∧
      (∀ a b c : Value, collate a b ≠ .gt → collate b c ≠ .gt → collate a c ≠ .gt) ∧
      Equivalence (fun a b : Value => collate a b = .eq) ∧
      (∀ a b : Value, collate a b = .eq → ∀ c,
        collate a c = collate b c ∧ collate c a = collate c b) ∧
      ∀ a b : Value, a.rank < b.rank → collate a b = .lt := by
  refine ⟨fun _ => Std.ReflCmp.compare_self, collate_swap, ?_, ?_, ?_, ?_⟩
  · intro a b c hab hbc
    simp only [Ordering.ne_gt_iff_isLE] at hab hbc ⊢
    exact Std.TransCmp.isLE_trans hab hbc
  · exact ⟨fun _ => Std.ReflCmp.compare_self, fun h => Std.OrientedCmp.eq_symm h,
      fun hab hbc => Std.TransCmp.eq_trans hab hbc⟩
  · exact fun a b tie c => ⟨Std.TransCmp.congr_left tie, Std.TransCmp.congr_right tie⟩
  · intro a b earlier
    rw [collate_of_rank_ne (Nat.ne_of_lt earlier)]
    exact Nat.compare_eq_lt.mpr earlier

section Sample

/-- Two, as an integer or as a float, beside an object with one member. -/
def pairOfTwo (two : Json.Number) (member : Value) : Value :=
  .array [.number two, .object [("k", member)]]

def twoAsInteger : Json.Number := .integer ⟨2, by decide, by decide⟩

/-- Of the numbers from zero on, two begins the upper half. -/
def twoAsFloat : Json.Number := .float ⟨false, 0x4000000000000000, by decide⟩

/-- Two keys that are not the same tie, and compare alike with a third one. -/
theorem collate_totalPreorder_two :
    let first := pairOfTwo twoAsInteger .null
    let other := pairOfTwo twoAsFloat .null
    let third := pairOfTwo twoAsFloat (.bool false)
    twoAsInteger ≠ twoAsFloat ∧ collate first other = .eq ∧ collate other third = .lt ∧
      collate first third ≠ .gt ∧ collate first third = collate other third ∧
      collate (.bool true) first = .lt := by
  intro first other third
  have tie : collate first other = .eq := by decide +kernel
  have smaller : collate other third = .lt := by decide +kernel
  obtain ⟨-, -, transitive, -, alike, kinds⟩ := collate_totalPreorder
  refine ⟨by decide, tie, smaller, ?_, (alike first other tie third).1, ?_⟩
  · exact transitive first other third (by simp [tie]) (by simp [smaller])
  · exact kinds (.bool true) first (by decide)

end Sample

end DocViews
