import DocViews.Proofs.Store.Grouped
import DocViews.Proofs.Store.History
import DocViews.Proofs.Ties

/-!
That it does not matter in which order entries were emitted, as long as no two of them tie on both
key and document. Sorting them has one result then, even though different keys may tie, and the
server reads an index in no other way than by scanning it and counting its entries. So groups are
represented by the same keys and floats are added in the same order.
-/

namespace DocViews

namespace Index

variable {first second : Index}

/-- Whether two indexes are the same up to the order of their entries, of which no two tie. -/
structure Rearranges (first second : Index) : Prop where
  reduction : first.reduction = second.reduction
  entries : first.entries.Perm second.entries
  apart : first.Apart

namespace Rearranges

theorem symm (h : first.Rearranges second) : second.Rearranges first := by
  refine ⟨h.reduction.symm, h.entries.symm, ?_⟩
  exact (h.entries.pairwise_iff fun differ tie => differ (Std.OrientedCmp.eq_symm tie)).mp h.apart

theorem scan (h : first.Rearranges second) (d : Direction) : first.scan d = second.scan d := by
  have perm : (first.scan d).Perm (second.scan d) :=
    (first.scan_perm d).trans (h.entries.trans (second.scan_perm d).symm)
  refine perm.eq_of_pairwise ?_ (h.apart.scan d) (h.symm.apart.scan d)
  intro a b _ _ before behind
  have swapped : Entry.orderIn d b a = (Entry.orderIn d a b).swap := Std.OrientedCmp.eq_swap
  rw [before, behind] at swapped
  cases swapped

theorem answer (h : first.Rearranges second) (plan : Plan) :
    plan.answer first = plan.answer second := by
  have selected : plan.selected first = plan.selected second := by
    rw [Plan.selected, h.scan, Plan.selected]
  have rows : plan.rows first = plan.rows second := by
    rw [Plan.rows, selected, Plan.rows]
  have overflows : plan.overflows first = plan.overflows second := by
    rw [Plan.overflows, selected, Plan.overflows]
  rw [Plan.answer, rows, selected, overflows, h.entries.length_eq, Plan.answer]

end Rearranges

end Index

namespace Store

/-- Whether what is found in two stores is the same up to the order of the entries. -/
inductive Matches : Except Marker Index → Except Marker Index → Prop where
  | same (found : Except Marker Index) : Matches found found
  | rearranged {first second : Index} (h : first.Rearranges second) :
      Matches (.ok first) (.ok second)

variable {documents others : Dictionary DesignDocument} {first second : Index}

theorem reply_of_matches
    (found : ∀ name view, Matches (locate documents name view) (locate others name view))
    (q : EncodedQuery) : reply documents q = reply others q := by
  unfold reply
  cases namespaceOf q with
  | error m => rfl
  | ok ns =>
      simp only [bind, Except.bind]
      have alike := found (ns.qualify ((q.string? QueryField.documentName).getD ""))
        ((q.string? QueryField.viewName).getD "")
      generalize locate documents _ _ = here at alike ⊢
      generalize locate others _ _ = there at alike ⊢
      cases alike with
      | same => rfl
      | rearranged h => simp only [h.reduction, h.answer]

/-- A store has each of the indexes under this name. -/
theorem matches_insert (h : first.Rearranges second) (documents : Dictionary DesignDocument)
    (views : DesignDocument) (qualified viewName name view : String) :
    Matches
      (locate (documents.insert qualified (Dictionary.insert viewName first views)) name view)
      (locate (documents.insert qualified (Dictionary.insert viewName second views)) name view) := by
  unfold locate
  simp only [Dictionary.find?_insert]
  by_cases document : qualified = name
  · simp only [if_pos document, Dictionary.find?_insert]
    by_cases found : viewName = view
    · simp only [if_pos found]
      exact .rearranged h
    · simp only [if_neg found]
      exact .same _
  · simp only [if_neg document]
    exact .same _

section Sample

/-- Keys that tie though they are not the same. -/
def tiedEntries : List Entry := [
  ⟨"a", .number lastFloat, .ofInt 1⟩,
  ⟨"b", .number nextInteger, .ofInt 2⟩]

def tiedDocuments (entries : List Entry) : Dictionary DesignDocument :=
  .ofPairs [("people", .ofPairs [("visits", ⟨entries, some .sum⟩)])]

def tiedByKey : EncodedQuery := visitQuery [(.group, .bool true)]

end Sample

/-- Whatever is asked of a store that has one of two such indexes under some name, the answer is
the same as that of the store which has the other one there instead: the same rows and the same
trailer, or the same marker. -/
theorem submit_rearranged (h : first.Rearranges second) (documents : Dictionary DesignDocument)
    (views : DesignDocument) (qualified viewName : String) (q : EncodedQuery) :
    let holding := fun index =>
      documents.insert qualified (Dictionary.insert viewName index views)
    reply (holding first) q = reply (holding second) q ∧
      ∀ (store : Store) (timeout : Duration),
        ({ store with documents := holding first }.submit q timeout).outcome =
          ({ store with documents := holding second }.submit q timeout).outcome := by
  have replies := reply_of_matches (matches_insert h documents views qualified viewName) q
  refine ⟨replies, fun store timeout => ?_⟩
  apply submit_congr
  · exact replies
  · rfl
  · rfl

/-- The row is under the key of the greater document, whichever was emitted first. -/
theorem submit_rearranged_tied :
    Index.Rearranges ⟨tiedEntries, some .sum⟩ ⟨tiedEntries.reverse, some .sum⟩ ∧
      (submit { documents := tiedDocuments tiedEntries } tiedByKey (.ofSeconds 1)).outcome =
        (submit { documents := tiedDocuments tiedEntries.reverse } tiedByKey
          (.ofSeconds 1)).outcome ∧
      rowsOf (tiedDocuments tiedEntries.reverse) tiedByKey =
        .ok [Reduction.row (.number nextInteger) (.ofInt 3)] := by
  have rearranged : Index.Rearranges ⟨tiedEntries, some .sum⟩
      ⟨tiedEntries.reverse, some .sum⟩ := by
    refine ⟨rfl, (List.reverse_perm _).symm, ?_⟩
    unfold Index.Apart
    decide +kernel
  obtain ⟨replies, outcomes⟩ :=
    submit_rearranged rearranged .empty .empty "people" "visits" tiedByKey
  refine ⟨rearranged, outcomes {} (.ofSeconds 1), ?_⟩
  have scanned : Index.scan ⟨tiedEntries, some .sum⟩ .ascending = tiedEntries :=
    List.mergeSort_of_pairwise (by decide +kernel)
  have rows : rowsOf (tiedDocuments tiedEntries) tiedByKey =
      .ok [Reduction.row (.number nextInteger) (.ofInt 3)] := by
    have located : indexOf (tiedDocuments tiedEntries) tiedByKey =
        .ok ⟨tiedEntries, some .sum⟩ := rfl
    have selects : Plan.selectionOf tiedByKey = .ok (.range none none none true) := rfl
    have up : Plan.directionOf tiedByKey = .ascending := rfl
    have all : Selection.select (.range none none none true) .ascending tiedEntries =
        tiedEntries := rfl
    have whole : Plan.groupingOf tiedByKey = .exact := rfl
    have groups : Reduction.groups .exact tiedEntries = [tiedEntries] :=
      Reduction.groups_eq_iff.mpr ⟨rfl, nofun, by decide +kernel, .singleton _⟩
    rw [rowsOf_selection located ⟨rfl, nofun⟩ selects, up, scanned, all, whole,
      Reduction.rows_eq Grouping.noConfusion, groups]
    rfl
  exact (congrArg (·.map (·.answer.rows)) replies.symm).trans rows

end Store

end DocViews
