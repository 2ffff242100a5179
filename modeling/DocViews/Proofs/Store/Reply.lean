import DocViews.Proofs.Metadata
import DocViews.Proofs.Store.Understanding

/-!
The replies of a store: the rows that are meant, and a trailer from which the metadata
is read that is meant; or a marker for the error that is meant.
-/

namespace DocViews

open Json (Exact ReadAs Takes recordMember)

namespace Store

variable {r : Reply}

theorem trailer_members :
    r.trailer = .object (
      (r.debug.map fun debug => ("debug", debug)).toList
        ++ (r.answer.totalRows.map fun n => ("total_rows", Json.Value.ofNat n)).toList) := by
  unfold Reply.trailer
  cases r.answer.totalRows <;> cases r.debug
  · rfl
  · exact Json.ofMembers_of_keys ["debug"] rfl (by decide)
  · exact Json.ofMembers_of_keys ["total_rows"] rfl (by decide)
  · simp only [Json.Value.ofMembers, Dictionary.ofPairs, List.cons_append, List.nil_append,
      List.foldl_cons, List.foldl_nil, Dictionary.insert, Dictionary.pairs_empty, Pairs.insert,
      Option.map_some, Option.toList_some]
    rw [if_pos (by decide)]

/-- The trailer is read back as the total that was put into it, which counts as zero where it is
left out, and what is read of what was said for debugging. -/
theorem read_trailer (fits : ∀ n ∈ r.answer.totalRows, n < 0x10000000000000000)
    {debug : Option Json.Value}
    (back : Option.Rel (fun v read => ReadAs Json.fieldLevels v read ∧ read ≠ .null) r.debug debug) :
    Metadata.read r.trailer.bytes = .ok ⟨(r.answer.totalRows.map UInt64.ofNat).getD 0, debug⟩ := by
  rw [trailer_members]
  generalize r.debug = said at back ⊢
  cases htotal : r.answer.totalRows with
  | none =>
      cases back with
      | none => exact Metadata.read_object .nil
      | some back =>
          exact Metadata.read_object
            (.cons (fun _ ends => Metadata.takes_debug back.1 back.2 (by simp) ends) .nil)
  | some n =>
      have hn := fits n htotal
      cases back with
      | none =>
          exact Metadata.read_object
            (.cons (fun _ ends => Metadata.takes_totalRows (by simp)
              (Metadata.natural_ofNat hn ends)) .nil)
      | some back =>
          exact Metadata.read_object
            (.cons (fun _ ends => Metadata.takes_debug back.1 back.2 (by simp) ends)
              (.cons (fun _ ends => Metadata.takes_totalRows (by simp)
                (Metadata.natural_ofNat hn ends)) .nil))

section Overflow

variable {documents : Dictionary DesignDocument} {store : Store} {q : EncodedQuery}
  {timeout : Duration}

/-- A build with overflow checks answers a query, unless a row of the answer overflows. -/
theorem reply?_eq_none :
    reply? documents q = none ↔ ∃ r, reply documents q = .ok r ∧ r.answer.overflows = true := by
  unfold reply?
  cases reply documents q with
  | error m => simp
  | ok r => cases h : r.answer.overflows <;> simp [h]

/-- A submission that is to be rejected is not answered, so it panics over nothing. -/
theorem submit?_eq_none :
    store.submit? q timeout = none ↔ store.failNextSubmit = none ∧
      ∃ r, reply store.documents q = .ok r ∧ r.answer.overflows = true := by
  rw [← reply?_eq_none]
  unfold submit?
  cases store.failNextSubmit <;> simp

end Overflow

section Evaluation

variable {store : Store} {q : EncodedQuery} {designDocument viewName : String} {o : QueryOptions}
  {index : Index}

/-- What is said for debugging, with its members in order. -/
theorem debugMembers (qualified viewName : String) (matched : Nat) :
    Json.Value.ofMembers [
      ("design_document", .string qualified),
      ("view", .string viewName),
      ("matched_rows", .ofNat matched)] =
    .object [
      ("design_document", .string qualified),
      ("matched_rows", .ofNat matched),
      ("view", .string viewName)] := by
  have hview : Pairs.insert "view" (Json.Value.string viewName)
      [("design_document", .string qualified)] =
      [("design_document", .string qualified), ("view", .string viewName)] := by
    rw [Pairs.insert, if_neg (by decide), if_neg (by decide), Pairs.insert]
  have hmatched : Pairs.insert "matched_rows" (Json.Value.ofNat matched)
      [("design_document", .string qualified), ("view", .string viewName)] =
      [("design_document", .string qualified), ("matched_rows", .ofNat matched),
        ("view", .string viewName)] := by
    rw [Pairs.insert, if_neg (by decide), if_neg (by decide), Pairs.insert,
      if_pos (by decide)]
  simp only [Json.Value.ofMembers, Dictionary.ofPairs, List.foldl_cons, List.foldl_nil,
    Dictionary.insert, Dictionary.pairs_empty]
  rw [Pairs.insert, hview, hmatched]

/-- It is read back as it is, up to what is read of its number. -/
theorem readAs_debug {levels : Nat} (qualified viewName : String) {matched read : Json.Value}
    (back : ReadAs levels matched read) :
    ReadAs (levels + 1)
      (.object [
        ("design_document", .string qualified),
        ("matched_rows", matched),
        ("view", .string viewName)])
      (.object [
        ("design_document", .string qualified),
        ("matched_rows", read),
        ("view", .string viewName)]) := by
  apply Json.readAs_object_of_keys ["design_document", "matched_rows", "view"] rfl (by decide)
  exact .cons ⟨rfl, Json.readBack_string qualified⟩
    (.cons ⟨rfl, back⟩ (.cons ⟨rfl, Json.readBack_string viewName⟩ .nil))

/-- What is said for debugging is said if the options ask for it. -/
theorem metadata_debug (qualified : String) :
    (o.metadata index qualified viewName).debug =
      if o.debug = some true then some (.object [
        ("design_document", .string qualified),
        ("matched_rows", .ofNat (o.selected index).length),
        ("view", .string viewName)])
      else none := rfl

/-- The metadata that are meant are read back from the trailer, up to what is read of the number
of selected entries. -/
theorem read_trailer_plan (qualified viewName : String)
    (total : index.entries.length < 0x10000000000000000) {matched : Json.Value}
    (back : ReadAs 125 (.ofNat (o.selected index).length) matched) :
    Metadata.read (Reply.trailer {
      answer := (o.plan index).answer index
      debug := (o.metadata index qualified viewName).debug }).bytes =
      .ok ⟨(o.metadata index qualified viewName).totalRows,
        if o.debug = some true then some (.object [
          ("design_document", .string qualified),
          ("matched_rows", matched),
          ("view", .string viewName)])
        else none⟩ := by
  have htotal : ((((o.plan index).answer index).totalRows).map UInt64.ofNat).getD 0 =
      (o.metadata index qualified viewName).totalRows := by
    rw [QueryOptions.plan_answer]
    unfold QueryOptions.metadata
    cases (o.reduction index).isSome <;> rfl
  rw [← htotal]
  apply read_trailer
  · intro n hn
    rw [QueryOptions.plan_answer] at hn
    cases hreduced : (o.reduction index).isSome with
    | true => simp [hreduced] at hn
    | false =>
        simp only [hreduced, Bool.false_eq_true, if_false, Option.mem_def,
          Option.some.injEq] at hn
        rw [← hn]
        exact total
  · rw [metadata_debug]
    split
    · exact .some ⟨readAs_debug qualified viewName back, nofun⟩
    · exact .none

/-- A count that fits 64 bits is read back as it is, so all of the metadata are. -/
theorem read_trailer_metadata (qualified viewName : String)
    (total : index.entries.length < 0x10000000000000000)
    (matched : (o.selected index).length < 0x10000000000000000) :
    Metadata.read (Reply.trailer {
      answer := (o.plan index).answer index
      debug := (o.metadata index qualified viewName).debug }).bytes =
      .ok (o.metadata index qualified viewName) :=
  read_trailer_plan qualified viewName total
    (Json.value_written (Metadata.exact_ofNat 125 matched))

/-- A view that is not there is an error of its own. -/
theorem evaluate_of_locate_error {m : Marker}
    (missing : locate store.documents (o.qualified designDocument) viewName = .error m) :
    o.evaluate store designDocument viewName = .error (.ofMarker m) := by
  unfold locate at missing
  unfold QueryOptions.evaluate
  cases hdocument : store.documents.find? (o.qualified designDocument) with
  | none =>
      simp only [hdocument, Except.error.injEq] at missing ⊢
      rw [← missing]
      rfl
  | some views =>
      cases hview : Dictionary.find? viewName views with
      | none =>
          simp only [hdocument, hview, Except.error.injEq] at missing ⊢
          rw [← missing]
          rfl
      | some index => simp [hdocument, hview] at missing

theorem evaluate_of_locate
    (found : locate store.documents (o.qualified designDocument) viewName = .ok index) :
    store.index? (o.qualified designDocument) viewName = some index ∧
      o.evaluate store designDocument viewName =
        if o.reduce = some true ∧ index.reduction = none then
          .error (.invalidRequest ("view " ++ viewName ++ " has no reduce function"))
        else .ok ⟨o.rows index, o.metadata index (o.qualified designDocument) viewName,
          o.overflows index⟩ := by
  unfold locate at found
  unfold QueryOptions.evaluate index?
  cases hdocument : store.documents.find? (o.qualified designDocument) with
  | none => simp [hdocument] at found
  | some views =>
      cases hview : Dictionary.find? viewName views with
      | none => simp [hdocument, hview] at found
      | some other =>
          simp only [hdocument, hview, Except.ok.injEq] at found
          subst found
          constructor
          · exact hview
          · simp only [hdocument, hview]

/-- What a store does with a query, step by step. -/
theorem reply_steps (enc : Query.Encodes q designDocument viewName o) :
    reply store.documents q = (do
      let index ← locate store.documents (o.qualified designDocument) viewName
      let plan ← Plan.ofQuery q viewName index.reduction
      let answer := plan.answer index
      let debug := if o.debug = some true then
          some (Json.Value.ofMembers [
            ("design_document", .string (o.qualified designDocument)),
            ("view", .string viewName),
            ("matched_rows", .ofNat answer.matched)])
        else none
      pure { answer, debug }) := by
  have hdebug : ((q.bool? QueryField.debug).getD false) = decide (o.debug = some true) := by
    rw [enc.debug]
    rcases o.debug with _ | _ | _ <;> rfl
  unfold reply
  rw [enc.namespaceOf_ok, enc.documentName, enc.viewName, hdebug]
  simp only [decide_eq_true_eq]
  rfl

/-- Whether the counts that a trailer tells fit 64 bits, as lengths of what is held in memory
do. -/
def CountsFit (store : Store) (o : QueryOptions) (designDocument viewName : String) : Prop :=
  ∀ index, store.index? (o.qualified designDocument) viewName = some index →
    index.entries.length < 0x10000000000000000 ∧
      (o.selected index).length < 0x10000000000000000

/-- A store replies to a query with the rows and the metadata that are meant, or with a
marker for the error that is meant. -/
theorem reply_evaluate (enc : Query.Encodes q designDocument viewName o)
    (readable : o.KeysReadable) (fit : CountsFit store o designDocument viewName) :
    (∃ result r, o.evaluate store designDocument viewName = .ok result ∧
        reply store.documents q = .ok r ∧ r.answer.rows = result.rows.map Row.toValue ∧
        Metadata.read r.trailer.bytes = .ok result.metadata ∧
        r.answer.overflows = result.overflows) ∨
      (∃ m, o.evaluate store designDocument viewName = .error (.ofMarker m) ∧
        reply store.documents q = .error m) := by
  rw [reply_steps enc]
  -- The steps fail in the order in which the meaning looks for what is wrong.
  cases hlocate : locate store.documents (o.qualified designDocument) viewName with
  | error m => exact .inr ⟨m, evaluate_of_locate_error hlocate, rfl⟩
  | ok index =>
      obtain ⟨hindex, hevaluate⟩ := evaluate_of_locate hlocate
      have hplan := enc.ofQuery_eq readable index
      by_cases hreducible : o.reduce = some true ∧ index.reduction = none
      · rw [if_pos hreducible] at hevaluate hplan
        refine .inr ⟨⟨3, "view " ++ viewName ++ " has no reduce function", none⟩, hevaluate, ?_⟩
        simp only [bind, Except.bind, hplan, Plan.refuse]
      · rw [if_neg hreducible] at hevaluate hplan
        obtain ⟨total, matched⟩ := fit index hindex
        refine .inl ⟨_, _, hevaluate, ?_, ?_,
          read_trailer_metadata (o.qualified designDocument) viewName total matched, ?_⟩
        · simp only [bind, Except.bind, hplan, debugMembers, QueryOptions.plan_answer]
          rfl
        · rw [QueryOptions.plan_answer]
        · rw [QueryOptions.plan_answer]

end Evaluation

end Store

end DocViews
