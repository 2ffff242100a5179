import DocViews.Proofs.Index.Scan
import DocViews.Proofs.Store.Understanding

/-!
The range of a query as a part of its scan. What a scan meets before a bound comes first in it,
and what it meets past a bound comes last. So the entries that a range admits are one segment of
the scan, a range may be cut in two at a bound, and the same range scanned the other way round
has the same entries in the opposite order.
-/

namespace DocViews

section Segments

variable {α : Type} {p q : α → Bool} {l m : List α}

/-- Whatever passes the test comes before whatever does not. -/
def Leads (p : α → Bool) (l : List α) : Prop := l.Pairwise fun a b => p b → p a

theorem Leads.sublist (h : Leads p l) (sub : m.Sublist l) : Leads p m := List.Pairwise.sublist sub h

theorem Leads.and (hp : Leads p l) (hq : Leads q l) : Leads (fun a => p a && q a) l := by
  refine (List.Pairwise.and hp hq).imp ?_
  intro a b ⟨hpab, hqab⟩ hb
  rw [Bool.and_eq_true] at hb ⊢
  exact ⟨hpab hb.1, hqab hb.2⟩

theorem Leads.or (hp : Leads p l) (hq : Leads q l) : Leads (fun a => p a || q a) l := by
  refine (List.Pairwise.and hp hq).imp ?_
  intro a b ⟨hpab, hqab⟩ hb
  rw [Bool.or_eq_true] at hb ⊢
  exact hb.imp hpab hqab

theorem leads_const (value : Bool) (l : List α) : Leads (fun _ => value) l :=
  List.pairwise_of_forall fun _ _ h => h

/-- The test cuts the list in two. -/
theorem Leads.filter_append (h : Leads p l) : l.filter p ++ l.filter (fun a => !p a) = l := by
  induction l with
  | nil => rfl
  | cons a l ih =>
      obtain ⟨first, rest⟩ := List.pairwise_cons.mp h
      have cut := ih rest
      by_cases ha : p a
      · rw [List.filter_cons_of_pos ha, List.filter_cons_of_neg (by simp [ha]), List.cons_append,
          cut]
      · -- Behind an item that fails no item passes.
        have none : l.filter p = [] := by
          rw [List.filter_eq_nil_iff]
          intro b hb pass
          exact ha (first b hb pass)
        rw [none, List.nil_append] at cut
        rw [List.filter_cons_of_neg ha, none, List.filter_cons_of_pos (by simp [ha]), cut,
          List.nil_append]

/-- Whether the items that pass follow one another: those before them pass one test, and no item
behind them passes another. -/
def Contiguous (p : α → Bool) (l : List α) : Prop :=
  ∃ early within : α → Bool, Leads early l ∧ Leads within l ∧ ∀ a, p a = (!early a && within a)

theorem Leads.contiguous (h : Leads p l) : Contiguous p l :=
  ⟨fun _ => false, p, leads_const false l, h, fun _ => rfl⟩

theorem Leads.contiguous_not (h : Leads p l) : Contiguous (fun a => !p a) l :=
  ⟨p, fun _ => true, h, leads_const true l, fun _ => (Bool.and_true _).symm⟩

theorem Contiguous.and (hp : Contiguous p l) (hq : Contiguous q l) :
    Contiguous (fun a => p a && q a) l := by
  obtain ⟨early, within, hearly, hwithin, hp⟩ := hp
  obtain ⟨early', within', hearly', hwithin', hq⟩ := hq
  refine ⟨_, _, hearly.or hearly', hwithin.and hwithin', ?_⟩
  intro a
  simp only [hp, hq]
  cases early a <;> cases early' a <;> simp

theorem Contiguous.filter_infix (h : Contiguous p l) : l.filter p <:+: l := by
  obtain ⟨early, within, hearly, hwithin, hp⟩ := h
  have twice : l.filter p = (l.filter within).filter fun a => !early a := by
    rw [List.filter_filter]
    exact List.filter_congr fun a _ => hp a
  have front : Leads early (l.filter within) := hearly.sublist List.filter_sublist
  refine ⟨(l.filter within).filter early, l.filter fun a => !within a, ?_⟩
  rw [twice, front.filter_append, hwithin.filter_append]

end Segments

/-- The index by key and then by document. -/
theorem Index.scan_ordered (index : Index) :
    (index.scan .ascending).Pairwise fun a b =>
      collate a.key b.key = .lt ∨ collate a.key b.key = .eq ∧ a.id ≤ b.id := by
  refine (index.scan_sorted .ascending).imp ?_
  intro a b le
  have within : ((collate a.key b.key).then (compare a.id b.id)).isLE := le
  cases h : collate a.key b.key with
  | lt => exact .inl rfl
  | gt => simp [h] at within
  | eq =>
      rw [h, Ordering.eq_then] at within
      refine .inr ⟨rfl, String.not_lt.mp ?_⟩
      intro lt
      have gt : (compare a.id b.id == .gt) = true := by
        rw [QueryOptions.compare_beq_gt]
        exact decide_eq_true lt
      rw [beq_iff_eq] at gt
      rw [gt] at within
      cases within

namespace QueryOptions

variable {o : QueryOptions} {index : Index}

/-! Where the bounds of a query lie in its scan. -/

theorem scan_sorted (o : QueryOptions) (index : Index) :
    (o.scan index).Pairwise fun a b => (Entry.orderIn o.direction a b).isLE := by
  rw [← scan_direction]
  exact index.scan_sorted o.direction

theorem before_leads (o : QueryOptions) (index : Index) (key : Json.Value)
    (docId : Option String) : Leads (o.before key docId) (o.scan index) := by
  refine (o.scan_sorted index).imp ?_
  intro a b le hb
  rw [← position_lt, beq_iff_eq] at hb ⊢
  by_contra reached
  exact Bound.position_ne_lt le reached hb

theorem not_past_leads (o : QueryOptions) (index : Index) (key : Json.Value)
    (docId : Option String) : Leads (fun e => !o.past key docId e) (o.scan index) := by
  refine (o.scan_sorted index).imp ?_
  intro a b le hb
  simp only [← position_gt, Bool.not_eq_true', beq_eq_false_iff_ne] at hb ⊢
  exact Bound.position_ne_gt le hb

/-- An entry has a key if it lies neither before nor past the key as a bound without a document. -/
theorem tie_eq (key : Json.Value) (e : Entry) :
    (collate e.key key == .eq) = (!o.before key none e && !o.past key none e) := by
  unfold before past below above
  cases o.descending <;> cases collate e.key key <;> rfl

def admitsKey (o : QueryOptions) (e : Entry) : Bool := o.key.all fun key => collate e.key key == .eq

def admitsStart (o : QueryOptions) (e : Entry) : Bool :=
  o.startKey.all fun key => !o.before key o.startKeyDocId e

def admitsEnd (o : QueryOptions) (e : Entry) : Bool :=
  o.endKey.all fun key =>
    if o.inclusiveEnd.getD true then !o.past key o.endKeyDocId e else o.before key o.endKeyDocId e

theorem admits_eq (o : QueryOptions) (e : Entry) :
    o.admits e = (o.admitsKey e && o.admitsStart e && o.admitsEnd e) := rfl

theorem admitsKey_contiguous (o : QueryOptions) (index : Index) :
    Contiguous o.admitsKey (o.scan index) := by
  unfold admitsKey
  cases o.key with
  | none => exact (leads_const true _).contiguous
  | some key =>
      simp only [Option.all_some, tie_eq (o := o)]
      exact (o.before_leads index key none).contiguous_not.and
        (o.not_past_leads index key none).contiguous

theorem admitsStart_contiguous (o : QueryOptions) (index : Index) :
    Contiguous o.admitsStart (o.scan index) := by
  unfold admitsStart
  cases o.startKey with
  | none => exact (leads_const true _).contiguous
  | some key => exact (o.before_leads index key o.startKeyDocId).contiguous_not

theorem admitsEnd_contiguous (o : QueryOptions) (index : Index) :
    Contiguous o.admitsEnd (o.scan index) := by
  unfold admitsEnd
  cases o.endKey with
  | none => exact (leads_const true _).contiguous
  | some key =>
      cases o.inclusiveEnd.getD true with
      | true => exact (o.not_past_leads index key o.endKeyDocId).contiguous
      | false => exact (o.before_leads index key o.endKeyDocId).contiguous

/-- What a range admits is one segment of the scan. -/
theorem filter_admits_infix (o : QueryOptions) (index : Index) :
    (o.scan index).filter o.admits <:+: o.scan index := by
  have admits : Contiguous o.admits (o.scan index) :=
    ((o.admitsKey_contiguous index).and (o.admitsStart_contiguous index)).and
      (o.admitsEnd_contiguous index)
  exact admits.filter_infix

theorem selected_of_unlisted (unlisted : o.keys = none) (index : Index) :
    o.selected index = (o.scan index).filter o.admits := by
  rw [selected, unlisted]

/-- Without a key and bounds a range is the whole scan. -/
theorem filter_admits_of_unbounded (key : o.key = none) (start : o.startKey = none)
    (stop : o.endKey = none) (index : Index) : (o.scan index).filter o.admits = o.scan index := by
  rw [List.filter_eq_self]
  intro e _
  rw [admits, key, start, stop]
  rfl

/-! Cutting a range in two. -/

/-- The same range up to a bound, which itself does not belong to it. -/
def endingBefore (o : QueryOptions) (b : Bound) : QueryOptions :=
  { o with endKey := some b.key, endKeyDocId := b.docId, inclusiveEnd := some false }

/-- The same range from a bound on. -/
def startingAt (o : QueryOptions) (b : Bound) : QueryOptions :=
  { o with startKey := some b.key, startKeyDocId := b.docId }

theorem endingBefore_admits (o : QueryOptions) (b : Bound) (e : Entry) :
    (o.endingBefore b).admits e = (o.admitsKey e && o.admitsStart e && o.before b.key b.docId e) :=
  rfl

theorem startingAt_admits (o : QueryOptions) (b : Bound) (e : Entry) :
    (o.startingAt b).admits e = (o.admitsKey e && !o.before b.key b.docId e && o.admitsEnd e) :=
  rfl

/-- If the first part does not reach out of the range, it is what lies before the bound. -/
theorem endingBefore_admits_of_within {b : Bound} {e : Entry}
    (within : (o.endingBefore b).admits e → o.admitsEnd e) :
    (o.endingBefore b).admits e = (o.before b.key b.docId e && o.admits e) := by
  rw [endingBefore_admits] at within ⊢
  rw [admits_eq, Bool.eq_iff_iff]
  simp only [Bool.and_eq_true] at within ⊢
  constructor
  · rintro ⟨admitted, before⟩
    exact ⟨before, admitted, within ⟨admitted, before⟩⟩
  · rintro ⟨before, admitted, -⟩
    exact ⟨admitted, before⟩

/-- And the second part is what does not lie before it. -/
theorem startingAt_admits_of_within {b : Bound} {e : Entry}
    (within : (o.startingAt b).admits e → o.admitsStart e) :
    (o.startingAt b).admits e = (!o.before b.key b.docId e && o.admits e) := by
  rw [startingAt_admits] at within ⊢
  rw [admits_eq, Bool.eq_iff_iff]
  simp only [Bool.and_eq_true] at within ⊢
  constructor
  · rintro ⟨⟨key, reached⟩, stop⟩
    exact ⟨reached, ⟨key, within ⟨⟨key, reached⟩, stop⟩⟩, stop⟩
  · rintro ⟨reached, ⟨key, -⟩, stop⟩
    exact ⟨⟨key, reached⟩, stop⟩

/-- The two parts make up the range exactly if neither reaches out of it. -/
theorem selected_append_iff (unlisted : o.keys = none) (b : Bound) :
    (o.endingBefore b).selected index ++ (o.startingAt b).selected index = o.selected index ↔
      (∀ e ∈ (o.endingBefore b).selected index, o.admitsEnd e) ∧
        ∀ e ∈ (o.startingAt b).selected index, o.admitsStart e := by
  have first : (o.endingBefore b).selected index =
      (o.scan index).filter (o.endingBefore b).admits :=
    selected_of_unlisted (o := o.endingBefore b) unlisted index
  have second : (o.startingAt b).selected index =
      (o.scan index).filter (o.startingAt b).admits :=
    selected_of_unlisted (o := o.startingAt b) unlisted index
  rw [selected_of_unlisted unlisted, first, second]
  constructor
  · intro whole
    have admitted : ∀ e, e ∈ (o.scan index).filter (o.endingBefore b).admits ∨
        e ∈ (o.scan index).filter (o.startingAt b).admits → o.admits e := by
      intro e he
      rw [← List.mem_append, whole] at he
      exact (List.mem_filter.mp he).2
    simp only [admits_eq, Bool.and_eq_true] at admitted
    exact ⟨fun e he => (admitted e (.inl he)).2, fun e he => (admitted e (.inr he)).1.2⟩
  · rintro ⟨ends, starts⟩
    -- The bound cuts the selected entries in two, because it so cuts the scan.
    have cut : Leads (o.before b.key b.docId) ((o.scan index).filter o.admits) :=
      (o.before_leads index b.key b.docId).sublist List.filter_sublist
    rw [← cut.filter_append, List.filter_filter, List.filter_filter]
    congr 1
    · apply List.filter_congr
      intro e he
      apply endingBefore_admits_of_within
      exact fun admitted => ends e (List.mem_filter.mpr ⟨he, admitted⟩)
    · apply List.filter_congr
      intro e he
      apply startingAt_admits_of_within
      exact fun admitted => starts e (List.mem_filter.mpr ⟨he, admitted⟩)

/-! Scanning a range the other way round. -/

/-- The same range from its end to its start. -/
def mirrored (o : QueryOptions) : QueryOptions :=
  { o with
    order := some (if o.descending then .ascending else .descending)
    startKey := o.endKey, startKeyDocId := o.endKeyDocId
    endKey := o.startKey, endKeyDocId := o.startKeyDocId }

theorem mirrored_descending (o : QueryOptions) : o.mirrored.descending = !o.descending := by
  have order : o.mirrored.order = some (if o.descending then .ascending else .descending) := rfl
  rw [descending, order]
  cases o.descending <;> rfl

theorem mirrored_scan (o : QueryOptions) (index : Index) :
    o.mirrored.scan index = (o.scan index).reverse := by
  rw [scan, scan, mirrored_descending]
  cases o.descending with
  | true => exact List.reverse_reverse _ |>.symm
  | false => rfl

theorem mirrored_before (o : QueryOptions) (key : Json.Value) (docId : Option String) (e : Entry) :
    o.mirrored.before key docId e = o.past key docId e := by
  rw [before, past, mirrored_descending]
  cases o.descending <;> rfl

theorem mirrored_past (o : QueryOptions) (key : Json.Value) (docId : Option String) (e : Entry) :
    o.mirrored.past key docId e = o.before key docId e := by
  rw [before, past, mirrored_descending]
  cases o.descending <;> rfl

/-- An end that belongs to the range is like a start for a scan the other way round. -/
theorem mirrored_admits (inclusive : o.inclusiveEnd ≠ some false) (e : Entry) :
    o.mirrored.admits e = o.admits e := by
  have included : o.inclusiveEnd.getD true = true := by
    rcases h : o.inclusiveEnd with _ | _ | _
    · rfl
    · exact absurd h inclusive
    · rfl
  have key : o.mirrored.admitsKey e = o.admitsKey e := rfl
  have start : o.mirrored.admitsStart e = o.admitsEnd e := by
    simp only [admitsStart, admitsEnd, mirrored_before, included, if_true]
    rfl
  have stop : o.mirrored.admitsEnd e = o.admitsStart e := by
    have kept : o.mirrored.inclusiveEnd = o.inclusiveEnd := rfl
    simp only [admitsStart, admitsEnd, mirrored_past, kept, included, if_true]
    rfl
  rw [admits_eq, admits_eq, key, start, stop, Bool.and_assoc, Bool.and_assoc,
    Bool.and_comm (o.admitsEnd e)]

theorem mirrored_selected (unlisted : o.keys = none) (inclusive : o.inclusiveEnd ≠ some false)
    (index : Index) : o.mirrored.selected index = (o.selected index).reverse := by
  have mirror : o.mirrored.selected index = (o.mirrored.scan index).filter o.mirrored.admits :=
    selected_of_unlisted (o := o.mirrored) unlisted index
  rw [mirror, selected_of_unlisted unlisted, mirrored_scan, ← List.filter_reverse]
  exact List.filter_congr fun e _ => mirrored_admits inclusive e

end QueryOptions

end DocViews
