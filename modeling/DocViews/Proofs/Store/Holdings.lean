import DocViews.Proofs.Store.Contents

/-!
What a store holds, told from its history alone. A view stands if it was created and its design
document was not dropped since. It then holds, in order, what has been emitted to it since it
was last created, under the reduction of that creation. Nothing else that is done to a store
touches it.
-/

namespace DocViews.Store

variable {store : Store} {op : Operation} {history earlier since : List Operation}
  {qualified viewName : String} {index : Index} {reduction : Option Reduction}

namespace Operation

/-- The reduction of the view that an operation creates, if it creates the one of these names. -/
def creates? (qualified viewName : String) : Operation → Option (Option Reduction)
  | .upsertView ns designDocument name reduction =>
      if ns.qualify designDocument = qualified ∧ name = viewName then some reduction else none
  | _ => none

/-- Whether an operation drops the design document of this name. -/
def drops (qualified : String) : Operation → Bool
  | .dropDesignDocument ns designDocument => ns.qualify designDocument = qualified
  | _ => false

/-- The entry that an operation would emit to the view of these names. -/
def emitsTo? (qualified viewName : String) : Operation → Option Entry
  | .emit ns designDocument name entry =>
      if ns.qualify designDocument = qualified ∧ name = viewName then some entry else none
  | _ => none

/-- Whether an operation is not refused. Only emissions can be. -/
def accepted (store : Store) : Operation → Bool
  | .emit ns designDocument name entry => (store.emit ns designDocument name entry).isOk
  | _ => true

/-- What becomes of one view in an operation: of what the store has under its names, the whole
store and all other views left aside. -/
def change (qualified viewName : String) (op : Operation) (held : Option Index) : Option Index :=
  if op.drops qualified then none
  else match op.creates? qualified viewName with
    | some reduction => some ⟨[], reduction⟩
    | none =>
        match op.emitsTo? qualified viewName with
        | some entry => held.map fun index => { index with entries := index.entries ++ [entry] }
        | none => held

theorem not_drops_of_creates? (h : op.creates? qualified viewName = some reduction) :
    op.drops qualified = false := by
  cases op with
  | upsertView ns designDocument name reduction => rfl
  | _ => cases h

/-- A view is there after an operation if this created it, or it was there and not dropped. -/
theorem isSome_change {held : Option Index} :
    (op.change qualified viewName held).isSome ↔
      (op.creates? qualified viewName).isSome ∨ (held.isSome ∧ op.drops qualified = false) := by
  unfold change
  cases hcreates : op.creates? qualified viewName with
  | some reduction => simp [not_drops_of_creates? hcreates]
  | none =>
      cases hdrops : op.drops qualified with
      | true => simp
      | false => cases op.emitsTo? qualified viewName <;> simp

end Operation

/-- What a store has under two names after an index was put under two. -/
theorem index?_put (store : Store) {changed : Store} {name view : String}
    (h : changed.documents = store.documents.insert name
      (Dictionary.insert view index ((store.documents.find? name).getD .empty))) :
    changed.index? qualified viewName =
      if name = qualified ∧ view = viewName then some index
      else store.index? qualified viewName := by
  unfold index?
  rw [h, Dictionary.find?_insert]
  by_cases same : name = qualified
  · subst same
    simp only [if_true, true_and, Option.bind_eq_bind, Option.bind_some, Dictionary.find?_insert]
    cases store.documents.find? name <;> rfl
  · simp [same]

/-- The three outcomes of an emission, by what is there. -/
theorem emit_cases (store : Store) (ns : Namespace) (designDocument viewName : String)
    (entry : Entry) :
    let qualified := ns.qualify designDocument
    let outcome := store.emit ns designDocument viewName entry
    (store.documents.find? qualified = none ∧ store.index? qualified viewName = none ∧
        outcome = .error (.designDocumentNotFound qualified)) ∨
      ((store.documents.find? qualified).isSome ∧ store.index? qualified viewName = none ∧
        outcome = .error (.viewNotFound (qualified ++ "/" ++ viewName))) ∨
      ((store.documents.find? qualified).isSome ∧ (store.index? qualified viewName).isSome ∧
        ∃ grown, outcome = .ok grown) := by
  simp only [emit, index?]
  cases hviews : store.documents.find? (ns.qualify designDocument) with
  | none => exact .inl ⟨rfl, rfl, rfl⟩
  | some views =>
      simp only [Option.bind_eq_bind, Option.bind_some]
      cases hindex : Dictionary.find? viewName views with
      | none => exact .inr (.inl ⟨rfl, rfl, rfl⟩)
      | some index => exact .inr (.inr ⟨rfl, rfl, _, rfl⟩)

/-- An emission is accepted where the view is there. -/
theorem emit_isOk (store : Store) (ns : Namespace) (designDocument viewName : String)
    (entry : Entry) :
    (store.emit ns designDocument viewName entry).isOk =
      (store.index? (ns.qualify designDocument) viewName).isSome := by
  rcases emit_cases store ns designDocument viewName entry with
    ⟨-, hindex, houtcome⟩ | ⟨-, hindex, houtcome⟩ | ⟨-, hindex, grown, houtcome⟩
  · rw [houtcome, hindex]
    rfl
  · rw [houtcome, hindex]
    rfl
  · rw [houtcome, hindex]
    rfl

theorem emit_designDocumentNotFound_iff (store : Store) (ns : Namespace)
    (designDocument viewName : String) (entry : Entry) :
    store.emit ns designDocument viewName entry =
        .error (.designDocumentNotFound (ns.qualify designDocument)) ↔
      store.documents.find? (ns.qualify designDocument) = none := by
  rcases emit_cases store ns designDocument viewName entry with
    ⟨hviews, -, houtcome⟩ | ⟨hviews, -, houtcome⟩ | ⟨hviews, -, grown, houtcome⟩
  · simp [houtcome, hviews]
  · simp [houtcome, Option.isSome_iff_ne_none.mp hviews]
  · simp [houtcome, Option.isSome_iff_ne_none.mp hviews]

theorem emit_viewNotFound_iff (store : Store) (ns : Namespace)
    (designDocument viewName : String) (entry : Entry) :
    store.emit ns designDocument viewName entry =
        .error (.viewNotFound (ns.qualify designDocument ++ "/" ++ viewName)) ↔
      store.index? (ns.qualify designDocument) viewName = none ∧
        (store.documents.find? (ns.qualify designDocument)).isSome := by
  rcases emit_cases store ns designDocument viewName entry with
    ⟨hviews, hindex, houtcome⟩ | ⟨hviews, hindex, houtcome⟩ | ⟨-, hindex, grown, houtcome⟩
  · simp [houtcome, hviews]
  · simp [houtcome, hindex, hviews]
  · simp [houtcome, Option.isSome_iff_ne_none.mp hindex]

/-- What an operation does to a view depends on nothing but that view. -/
theorem index?_perform (store : Store) (op : Operation) (qualified viewName : String) :
    (store.perform op).index? qualified viewName =
      op.change qualified viewName (store.index? qualified viewName) := by
  cases op with
  | upsertView ns designDocument name reduction =>
      rw [perform, index?_put store rfl]
      simp only [Operation.change, Operation.drops, Operation.creates?, Operation.emitsTo?]
      split <;> rfl
  | emit ns designDocument name entry =>
      simp only [Operation.change, Operation.drops, Operation.creates?, Operation.emitsTo?, perform]
      cases hemit : store.emit ns designDocument name entry with
      | error error =>
          have refused : store.index? (ns.qualify designDocument) name = none := by
            have h := emit_isOk store ns designDocument name entry
            rw [hemit] at h
            exact Option.isSome_eq_false_iff.mp h.symm |> Option.isNone_iff_eq_none.mp
          by_cases here : ns.qualify designDocument = qualified ∧ name = viewName
          · obtain ⟨rfl, rfl⟩ := here
            simp [refused]
          · simp [here]
      | ok grown =>
          obtain ⟨views, index, hviews, hindex, rfl⟩ := emit_ok hemit
          rw [index?_put store (by rw [hviews]; rfl)]
          split
          · next here =>
              obtain ⟨rfl, rfl⟩ := here
              simp [index?_of_find? hviews, hindex]
          · rfl
  | dropDesignDocument ns designDocument =>
      simp only [perform, dropDesignDocument, Operation.change, Operation.drops, index?]
      by_cases here : ns.qualify designDocument = qualified
      · simp [here, Dictionary.find?_erase_self]
      · simp [here, Dictionary.find?_erase_of_ne here, Operation.creates?, Operation.emitsTo?]
  | armSubmitFailure error => rfl
  | armStreamFailure rows => rfl
  | submit query timeout =>
      simp only [perform, submit_state]
      rfl

/-- Whether a view of these names was created and its design document not dropped since. -/
def Standing (qualified viewName : String) (history : List Operation) : Prop :=
  ∃ earlier op later, history = earlier ++ op :: later ∧
    (op.creates? qualified viewName).isSome ∧ ∀ after ∈ later, after.drops qualified = false

theorem standing_append_singleton :
    Standing qualified viewName (history ++ [op]) ↔
      (op.creates? qualified viewName).isSome ∨
        (Standing qualified viewName history ∧ op.drops qualified = false) := by
  constructor
  · rintro ⟨earlier, creation, later, split, creates, kept⟩
    rcases List.eq_nil_or_concat later with rfl | ⟨later, last, rfl⟩
    · obtain ⟨-, h⟩ := List.append_inj' split rfl
      cases h
      exact .inl creates
    · rw [List.concat_eq_append] at split kept
      rw [← List.cons_append, ← List.append_assoc] at split
      obtain ⟨rfl, h⟩ := List.append_inj' split rfl
      cases h
      refine .inr ⟨⟨earlier, creation, later, rfl, creates, fun after hafter => ?_⟩, ?_⟩
      · exact kept after (List.mem_append_left _ hafter)
      · exact kept op (by simp)
  · rintro (creates | ⟨⟨earlier, creation, later, rfl, creates, kept⟩, hop⟩)
    · exact ⟨history, op, [], rfl, creates, by simp⟩
    · refine ⟨earlier, creation, later ++ [op], by simp, creates, fun after hafter => ?_⟩
      rcases List.mem_append.mp hafter with h | h
      · exact kept after h
      · rwa [List.mem_singleton.mp h]

/-- The views that are there are those that stand. -/
theorem isSome_index?_ofHistory (history : List Operation) (qualified viewName : String) :
    ((ofHistory history).index? qualified viewName).isSome ↔
      Standing qualified viewName history := by
  induction history using List.reverseRecOn with
  | nil =>
      constructor
      · intro h
        cases h
      · rintro ⟨earlier, creation, later, split, -⟩
        simp at split
  | append_singleton history op ih =>
      rw [ofHistory_append_singleton, index?_perform, Operation.isSome_change, ih,
        standing_append_singleton]

/-- What operations that are performed after others emit to a view, in this order. Emissions
that are refused emit nothing. -/
def emittedAfter (qualified viewName : String) (earlier : List Operation) :
    List Operation → List Entry
  | [] => []
  | op :: later =>
      (if op.accepted (ofHistory earlier) then (op.emitsTo? qualified viewName).toList else [])
        ++ emittedAfter qualified viewName (earlier ++ [op]) later

theorem emittedAfter_append_singleton (earlier since : List Operation) (op : Operation) :
    emittedAfter qualified viewName earlier (since ++ [op]) =
      emittedAfter qualified viewName earlier since ++
        if op.accepted (ofHistory (earlier ++ since)) then
          (op.emitsTo? qualified viewName).toList
        else [] := by
  induction since generalizing earlier with
  | nil => simp [emittedAfter]
  | cons first since ih => simp [emittedAfter, ih]

theorem accepted_of_emitsTo? {entry : Entry}
    (h : op.emitsTo? qualified viewName = some entry) :
    op.accepted store = (store.index? qualified viewName).isSome := by
  cases op with
  | emit ns designDocument name emitted =>
      simp only [Operation.emitsTo?, Option.ite_none_right_eq_some] at h
      obtain ⟨⟨rfl, rfl⟩, -⟩ := h
      exact emit_isOk store ns designDocument name emitted
  | _ => cases h

/-- The latest creation of a view that stands: what came before it, the reduction that it gave
the view, and what came since, which neither creates the view again nor drops it. -/
structure LatestCreation (qualified viewName : String) (history earlier : List Operation)
    (op : Operation) (reduction : Option Reduction) (since : List Operation) : Prop where
  split : history = earlier ++ op :: since
  creates : op.creates? qualified viewName = some reduction
  kept : ∀ later ∈ since, later.drops qualified = false
  latest : ∀ later ∈ since, later.creates? qualified viewName = none

/-- A view holds what was emitted to it since it was last created. -/
theorem LatestCreation.index?_ofHistory
    (creation : LatestCreation qualified viewName history earlier op reduction since) :
    (ofHistory history).index? qualified viewName =
      some ⟨emittedAfter qualified viewName (earlier ++ [op]) since, reduction⟩ := by
  obtain ⟨rfl, creates, kept, latest⟩ := creation
  induction since using List.reverseRecOn with
  | nil =>
      rw [ofHistory_append_singleton, index?_perform, Operation.change, creates,
        Operation.not_drops_of_creates? creates]
      rfl
  | append_singleton since last ih =>
      have held := ih (fun later h => kept later (List.mem_append_left _ h))
        (fun later h => latest later (List.mem_append_left _ h))
      have hkept : last.drops qualified = false := kept last (by simp)
      have hlatest : last.creates? qualified viewName = none := latest last (by simp)
      have split : earlier ++ op :: (since ++ [last]) = (earlier ++ op :: since) ++ [last] := by
        simp
      rw [split, ofHistory_append_singleton, index?_perform, held,
        emittedAfter_append_singleton, Operation.change, hkept, hlatest]
      cases hemits : last.emitsTo? qualified viewName with
      | none => simp
      | some entry =>
          have accepted : last.accepted (ofHistory (earlier ++ op :: since)) = true := by
            rw [accepted_of_emitsTo? hemits, held]
            rfl
          simp [accepted]

theorem Standing.latestCreation (standing : Standing qualified viewName history) :
    ∃ earlier op reduction since,
      LatestCreation qualified viewName history earlier op reduction since := by
  induction history using List.reverseRecOn with
  | nil =>
      obtain ⟨earlier, creation, later, split, -⟩ := standing
      simp at split
  | append_singleton history last ih =>
      cases hcreates : last.creates? qualified viewName with
      | some reduction => exact ⟨history, last, reduction, [], rfl, hcreates, by simp, by simp⟩
      | none =>
          obtain ⟨before, hkept⟩ : Standing qualified viewName history ∧
              last.drops qualified = false := by
            simpa [hcreates] using standing_append_singleton.mp standing
          obtain ⟨earlier, op, reduction, since, rfl, creates, kept, latest⟩ := ih before
          refine ⟨earlier, op, reduction, since ++ [last], by simp, creates, ?_, ?_⟩
          · intro later hlater
            rcases List.mem_append.mp hlater with h | h
            · exact kept later h
            · rwa [List.mem_singleton.mp h]
          · intro later hlater
            rcases List.mem_append.mp hlater with h | h
            · exact latest later h
            · rwa [List.mem_singleton.mp h]

/-- A store has no design document without views. -/
def Furnished (store : Store) : Prop :=
  ∀ name views, store.documents.find? name = some views →
    ∃ viewName, (Dictionary.find? viewName views).isSome

theorem Furnished.put {changed : Store} {name view : String} {views : DesignDocument}
    (furnished : store.Furnished)
    (h : changed.documents = store.documents.insert name (Dictionary.insert view index views)) :
    changed.Furnished := by
  intro other found hfound
  rw [h, Dictionary.find?_insert] at hfound
  split at hfound
  · cases hfound
    exact ⟨view, by rw [Dictionary.find?_insert_self]; rfl⟩
  · exact furnished other found hfound

theorem Furnished.perform (furnished : store.Furnished) (op : Operation) :
    (store.perform op).Furnished := by
  cases op with
  | upsertView ns designDocument name reduction => exact furnished.put rfl
  | emit ns designDocument name entry =>
      simp only [Store.perform]
      cases hemit : store.emit ns designDocument name entry with
      | error error => exact furnished
      | ok grown =>
          obtain ⟨views, index, -, -, rfl⟩ := emit_ok hemit
          exact furnished.put rfl
  | dropDesignDocument ns designDocument =>
      intro name views hviews
      by_cases here : ns.qualify designDocument = name
      · simp [Store.perform, dropDesignDocument, here, Dictionary.find?_erase_self] at hviews
      · simp only [Store.perform, dropDesignDocument, Dictionary.find?_erase_of_ne here] at hviews
        exact furnished name views hviews
  | armSubmitFailure error => exact furnished
  | armStreamFailure rows => exact furnished
  | submit query timeout =>
      simp only [Store.perform, submit_state]
      exact furnished

theorem furnished_ofHistory (history : List Operation) : (ofHistory history).Furnished := by
  induction history using List.reverseRecOn with
  | nil =>
      intro name views hviews
      cases hviews
  | append_singleton history op ih =>
      rw [ofHistory_append_singleton]
      exact ih.perform op

/-- The design documents that are there are those of which a view stands. -/
theorem isSome_find?_ofHistory (history : List Operation) (qualified : String) :
    ((ofHistory history).documents.find? qualified).isSome ↔
      ∃ name, Standing qualified name history := by
  constructor
  · intro h
    obtain ⟨views, hviews⟩ := Option.isSome_iff_exists.mp h
    obtain ⟨name, hname⟩ := furnished_ofHistory history qualified views hviews
    refine ⟨name, (isSome_index?_ofHistory history qualified name).mp ?_⟩
    rwa [index?_of_find? hviews]
  · rintro ⟨name, standing⟩
    have found := (isSome_index?_ofHistory history qualified name).mpr standing
    unfold index? at found
    cases hviews : (ofHistory history).documents.find? qualified with
    | none => simp [hviews] at found
    | some views => rfl

/-- After any history, a view is there if and only if it stands. It then holds exactly what was
emitted to it since its latest creation, in order and under the reduction of that creation, and
that is what its size counts. An emission is accepted if and only if the view stands; else it
says which part is missing and changes nothing. Dropping a design document tells whether any of
its views stood, and an operation that neither creates nor drops nor emits to a view leaves it
as it is. -/
theorem holds_emitted (history : List Operation) (ns : Namespace)
    (designDocument viewName : String) :
    let store := ofHistory history
    let qualified := ns.qualify designDocument
    ((store.index? qualified viewName).isSome ↔ Standing qualified viewName history) ∧
      (∀ index, store.index? qualified viewName = some index ↔
        ∃ earlier op since,
          LatestCreation qualified viewName history earlier op index.reduction since ∧
          index.entries = emittedAfter qualified viewName (earlier ++ [op]) since) ∧
      (∀ size, store.indexSize ns designDocument viewName = some size ↔
        ∃ earlier op reduction since,
          LatestCreation qualified viewName history earlier op reduction since ∧
          size = (emittedAfter qualified viewName (earlier ++ [op]) since).length) ∧
      (∀ entry,
        let outcome := store.emit ns designDocument viewName entry
        (outcome.isOk ↔ Standing qualified viewName history) ∧
          (outcome = .error (.designDocumentNotFound qualified) ↔
            ∀ name, ¬ Standing qualified name history) ∧
          (outcome = .error (.viewNotFound (qualified ++ "/" ++ viewName)) ↔
            ¬ Standing qualified viewName history ∧ ∃ name, Standing qualified name history) ∧
          (¬ outcome.isOk →
            ofHistory (history ++ [.emit ns designDocument viewName entry]) = store)) ∧
      ((store.dropDesignDocument ns designDocument).1 = true ↔
        ∃ name, Standing qualified name history) ∧
      ∀ op, op.creates? qualified viewName = none → op.drops qualified = false →
        op.emitsTo? qualified viewName = none →
        (ofHistory (history ++ [op])).index? qualified viewName =
          store.index? qualified viewName := by
  intro store qualified
  have stands := isSome_index?_ofHistory history qualified viewName
  have documented := isSome_find?_ofHistory history qualified
  have latest : ∀ {index}, store.index? qualified viewName = some index →
      ∃ earlier op since,
        LatestCreation qualified viewName history earlier op index.reduction since ∧
        index.entries = emittedAfter qualified viewName (earlier ++ [op]) since := by
    intro index found
    obtain ⟨earlier, op, reduction, since, creation⟩ :=
      (stands.mp (Option.isSome_of_eq_some found)).latestCreation
    obtain rfl : index = _ := Option.some.inj (found.symm.trans creation.index?_ofHistory)
    exact ⟨earlier, op, since, creation, rfl⟩
  refine ⟨stands, fun index => ⟨latest, ?_⟩, fun size => ⟨?_, ?_⟩, fun entry => ?_, documented, ?_⟩
  · rintro ⟨earlier, op, since, creation, hentries⟩
    rw [creation.index?_ofHistory, ← hentries]
  · intro hsize
    obtain ⟨index, found, rfl⟩ := Option.map_eq_some_iff.mp hsize
    obtain ⟨earlier, op, since, creation, hentries⟩ := latest found
    exact ⟨earlier, op, index.reduction, since, creation, by rw [hentries]⟩
  · rintro ⟨earlier, op, reduction, since, creation, rfl⟩
    unfold indexSize
    rw [creation.index?_ofHistory]
    rfl
  · intro outcome
    refine ⟨?_, ?_, ?_, ?_⟩
    · rw [show outcome.isOk = _ from emit_isOk store ns designDocument viewName entry]
      exact stands
    · rw [emit_designDocumentNotFound_iff, ← Option.not_isSome_iff_eq_none, documented,
        not_exists]
    · rw [emit_viewNotFound_iff, ← Option.not_isSome_iff_eq_none, stands, documented]
    · intro refused
      rw [ofHistory_append_singleton, perform]
      cases houtcome : store.emit ns designDocument viewName entry with
      | error error => rfl
      | ok grown =>
          simp only [outcome, houtcome] at refused
          exact absurd rfl refused
  · intro op hcreates hdrops hemits
    rw [ofHistory_append_singleton, index?_perform, Operation.change, hcreates, hdrops, hemits]
    rfl

section Sample

/-- A view that is created twice. The first emission comes too early; the second is undone by
the second creation. The same view is created in development before the last emission. -/
def recreated : List Operation := [
  .emit .production "people" "by_age" ⟨"a", .null, .null⟩,
  .upsertView .production "people" "by_age" none,
  .emit .production "people" "by_age" ⟨"b", .null, .null⟩,
  .upsertView .production "people" "by_age" (some .count),
  .emit .production "people" "by_age" ⟨"c", .null, .null⟩,
  .upsertView .development "people" "by_age" none,
  .emit .production "people" "by_age" ⟨"d", .null, .null⟩]

theorem latestCreation_recreated :
    LatestCreation "people" "by_age" recreated (recreated.take 3)
      (.upsertView .production "people" "by_age" (some .count)) (some .count)
      (recreated.drop 4) where
  split := rfl
  creates := rfl
  kept := by decide
  latest := by decide

/-- What was emitted since the second creation is held; dropping the document in development
leaves it there. -/
theorem holds_emitted_recreated :
    let store := ofHistory recreated
    let held : Index := ⟨[⟨"c", .null, .null⟩, ⟨"d", .null, .null⟩], some .count⟩
    let stray : Entry := ⟨"e", .null, .null⟩
    store.index? "people" "by_age" = some held ∧
      store.indexSize .production "people" "by_age" = some 2 ∧
      store.emit .production "people" "by_name" stray = .error (.viewNotFound "people/by_name") ∧
      store.emit .production "places" "by_age" stray = .error (.designDocumentNotFound "places") ∧
      (store.dropDesignDocument .production "people").1 = true ∧
      (ofHistory (recreated ++ [.dropDesignDocument .development "people"])).index?
        "people" "by_age" = some held := by
  intro store held stray
  have emitted : held.entries = emittedAfter "people" "by_age"
      (recreated.take 3 ++ [.upsertView .production "people" "by_age" (some .count)])
      (recreated.drop 4) := rfl
  have standing : Standing "people" "by_age" recreated :=
    ⟨recreated.take 3, _, recreated.drop 4, rfl, rfl, by decide⟩
  have absent : ∀ viewName, ¬ Standing "places" viewName recreated := by
    intro viewName h
    cases (isSome_index?_ofHistory recreated "places" viewName).mpr h
  obtain ⟨-, holds, sizes, -, drops, frame⟩ :=
    holds_emitted recreated .production "people" "by_age"
  obtain ⟨named, -, -, missingView, -⟩ := holds_emitted recreated .production "people" "by_name"
  obtain ⟨-, -, -, missingDocument, -⟩ := holds_emitted recreated .production "places" "by_age"
  have found : store.index? "people" "by_age" = some held :=
    (holds held).mpr ⟨_, _, _, latestCreation_recreated, emitted⟩
  have unnamed : ¬ Standing "people" "by_name" recreated := by
    intro h
    cases named.mpr h
  refine ⟨found, ?_, ?_, ?_, ?_, ?_⟩
  · exact (sizes 2).mpr ⟨_, _, _, _, latestCreation_recreated, rfl⟩
  · exact (missingView stray).2.2.1.mpr ⟨unnamed, "by_age", standing⟩
  · exact (missingDocument stray).2.1.mpr absent
  · exact drops.mpr ⟨"by_age", standing⟩
  · exact (frame _ rfl rfl rfl).trans found

end Sample

end DocViews.Store
