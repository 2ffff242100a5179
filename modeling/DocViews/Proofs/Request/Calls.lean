import DocViews.Proofs.Request.Representation

/-!
The calls that a request makes on its transport, its source and its serializer, in the order
in which it makes them, in every run. What is submitted is submitted first and once; the
source is asked for items up to the first answer that ends the stream, and for the trailer
after the last row only.
-/

namespace DocViews

namespace Call

/-- Whether the call goes to the transport. -/
def onTransport : Call → Bool
  | .submit => true
  | _ => false

/-- Whether the call goes to the source. -/
def onSource : Call → Bool
  | .next _ | .trailer => true
  | _ => false

/-- The payload of a row that the source has answered with. -/
def pulledRow? : Call → Option Bytes
  | .next (.ok (.row payload)) => some payload
  | _ => none

/-- The serializer that was asked to decode, and what. -/
def decoded? : Call → Option (String × Bytes)
  | .decode serializer payload => some (serializer, payload)
  | _ => none

end Call

namespace Request

variable {κ ω σ ρ : Type}

/-- What can be expected of the calls that a request makes. -/
structure Disciplined (r : Request κ σ ρ) (calls : List Call) : Prop where
  submitOnce : (calls.filter Call.onTransport).length ≤ 1
  /-- Nothing is called before the submission. -/
  submitFirst : ∀ before after, calls = before ++ .submit :: after → before = []
  /-- The source is asked for items, and then for the trailer once at most. -/
  trailerLast : ∃ (answers : List Pulled) (closing : List Call),
    calls.filter Call.onSource = answers.map .next ++ closing ∧
      (closing = [] ∨ closing = [.trailer])
  trailerAfterEnd : ∀ before after, calls = before ++ .trailer :: after →
    before.getLast? = some (.next (.ok .finished))
  endBeforeTrailer : ∀ before after, calls = before ++ .next (.ok .finished) :: after →
    after.head? = some .trailer
  /-- No item is asked for once an answer has ended the stream. -/
  nothingAfterEnding : ∀ before after pulled, calls = before ++ .next pulled :: after →
    r.EndsWith pulled → ∀ answer, .next answer ∉ after
  /-- The configured serializer decodes each row that is pulled, and decodes it once. -/
  decodesRows : calls.filterMap Call.decoded? =
    (calls.filterMap Call.pulledRow?).map fun payload => (r.serializer.name, payload)

/-- The calls of a request that is streaming: rows, and perhaps the end. -/
inductive Streamed (r : Request κ σ ρ) : List Call → Prop where
  | paused : Streamed r []
  | row {payload : Bytes} {row : ρ} {rest : List Call} (decoded : r.decodeRow payload = .ok row)
      (tail : Streamed r rest) :
      Streamed r (.next (.ok (.row payload)) :: .decode r.serializer.name payload :: rest)
  | ended {pulled : Pulled} (ends : r.EndsWith pulled) :
      Streamed r (.next pulled :: r.closingCalls pulled)

/-- The calls depend on the request by its serializer and the decoding of its rows only. -/
theorem Streamed.congr {r other : Request κ σ ρ} {calls : List Call}
    (streamed : Streamed other calls) (serializer : other.serializer = r.serializer)
    (decode : other.decode = r.decode) :
    Streamed r calls := by
  have hrow : other.decodeRow = r.decodeRow := by
    funext payload
    simp only [decodeRow, serializer, decode]
  induction streamed with
  | paused => exact .paused
  | row decoded _ ih =>
      rw [serializer]
      exact .row (hrow ▸ decoded) ih
  | ended ends =>
      have hclosing : ∀ pulled, other.closingCalls pulled = r.closingCalls pulled := by
        intro pulled
        simp only [closingCalls, serializer]
      rw [hclosing]
      exact .ended (by simpa only [EndsWith, hrow] using ends)

/-- What calls a request makes, by the stage it is in before. -/
inductive Called (r : Request κ σ ρ) : List Call → Prop where
  | nothing : Called r []
  | submitted {rest : List Call} (unsubmitted : r.stage = .notStarted) (tail : Streamed r rest) :
      Called r (.submit :: rest)
  | streamed {calls : List Call} (streaming : r.stage = .streaming) (tail : Streamed r calls) :
      Called r calls

theorem Called.streamed_of_streaming {r : Request κ σ ρ} {calls : List Call}
    (called : Called r calls) (streaming : r.stage = .streaming) : Streamed r calls := by
  cases called with
  | nothing => exact .paused
  | submitted unsubmitted tail =>
      rw [streaming] at unsubmitted
      cases unsubmitted
  | streamed _ tail => exact tail

theorem Called.nil_of_done {r : Request κ σ ρ} {calls : List Call}
    (called : Called r calls) (done : r.stage = .done) : calls = [] := by
  cases called with
  | nothing => rfl
  | submitted unsubmitted tail =>
      rw [done] at unsubmitted
      cases unsubmitted
  | streamed streaming tail =>
      rw [done] at streaming
      cases streaming

/-- One move before others. -/
theorem Called.after_move [RowSource σ] {r between : Request κ σ ρ} {calls further : List Call}
    (move : Move r between calls) (called : Called between further) :
    Called r (calls ++ further) := by
  cases move with
  | refused => exact called
  | accepted source unsubmitted =>
      have tail := called.streamed_of_streaming rfl
      exact .submitted unsubmitted (tail.congr rfl rfl)
  | rejected unsubmitted =>
      rw [called.nil_of_done rfl]
      exact .submitted unsubmitted .paused
  | row streaming held answered decoded =>
      have tail := called.streamed_of_streaming streaming
      exact .streamed streaming (.row decoded (tail.congr rfl rfl))
  | ended metadata streaming held answered ends =>
      rw [called.nil_of_done rfl, List.append_nil]
      exact .streamed streaming (.ended ends)

theorem Moves.called [RowSource σ] {r after : Request κ σ ρ} {calls : List Call}
    (moves : Moves r after calls) : Called r calls := by
  induction moves with
  | none => exact .nothing
  | more first _ ih => exact ih.after_move first

section Discipline

variable {r : Request κ σ ρ} {calls : List Call}

theorem Streamed.submit_notMem (streamed : Streamed r calls) : .submit ∉ calls := by
  induction streamed with
  | paused => simp
  | row _ _ ih => simpa using ih
  | @ended pulled _ =>
      rcases pulled with _ | (_ | _ | _) <;> simp [closingCalls]

theorem Streamed.filter_onTransport (streamed : Streamed r calls) :
    calls.filter Call.onTransport = [] := by
  rw [List.filter_eq_nil_iff]
  intro call hmem hcall
  cases call with
  | submit => exact streamed.submit_notMem hmem
  | _ => cases hcall

theorem Streamed.trailerLast (streamed : Streamed r calls) :
    ∃ (answers : List Pulled) (closing : List Call),
      calls.filter Call.onSource = answers.map .next ++ closing ∧
        (closing = [] ∨ closing = [.trailer]) := by
  induction streamed with
  | paused => exact ⟨[], [], rfl, .inl rfl⟩
  | @row payload row rest _ _ ih =>
      obtain ⟨answers, closing, hrest, hclosing⟩ := ih
      refine ⟨.ok (.row payload) :: answers, closing, ?_, hclosing⟩
      simp [List.filter_cons, Call.onSource, hrest]
  | @ended pulled _ =>
      rcases pulled with fault | (payload | m | _)
      · exact ⟨[.error fault], [], rfl, .inl rfl⟩
      · exact ⟨[.ok (.row payload)], [], rfl, .inl rfl⟩
      · exact ⟨[.ok (.marker m)], [], rfl, .inl rfl⟩
      · exact ⟨[.ok .finished], [.trailer], rfl, .inr rfl⟩

theorem Streamed.trailerAfterEnd (streamed : Streamed r calls) (before after : List Call)
    (h : calls = before ++ .trailer :: after) :
    before.getLast? = some (.next (.ok .finished)) := by
  induction streamed generalizing before with
  | paused => simp at h
  | row _ _ ih =>
      -- A row makes two calls, and the trailer is beyond both.
      rcases before with _ | ⟨first, _ | ⟨second, before⟩⟩
      · simp at h
      · simp at h
      · simp only [List.cons_append, List.cons.injEq] at h
        have hlast := ih before h.2.2
        rw [List.getLast?_cons, List.getLast?_cons, hlast]
        rfl
  | @ended pulled _ =>
      rcases before with _ | ⟨first, _ | ⟨second, before⟩⟩
      · simp at h
      · rcases pulled with _ | (_ | _ | _) <;> simp [closingCalls] at h
        exact congrArg some h.1.symm
      · rcases pulled with _ | (_ | _ | _) <;> simp [closingCalls] at h

theorem Streamed.endBeforeTrailer (streamed : Streamed r calls) (before after : List Call)
    (h : calls = before ++ .next (.ok .finished) :: after) : after.head? = some .trailer := by
  induction streamed generalizing before with
  | paused => simp at h
  | row _ _ ih =>
      rcases before with _ | ⟨first, _ | ⟨second, before⟩⟩
      · simp at h
      · simp at h
      · simp only [List.cons_append, List.cons.injEq] at h
        exact ih before h.2.2
  | @ended pulled _ =>
      rcases before with _ | ⟨first, _ | ⟨second, before⟩⟩
      · simp only [List.nil_append, List.cons.injEq, Call.next.injEq] at h
        obtain ⟨rfl, rfl⟩ := h
        rfl
      · rcases pulled with _ | (_ | _ | _) <;> simp [closingCalls] at h
      · rcases pulled with _ | (_ | _ | _) <;> simp [closingCalls] at h

theorem next_notMem_closingCalls (pulled answer : Pulled) :
    .next answer ∉ r.closingCalls pulled := by
  rcases pulled with _ | (_ | _ | _) <;> simp [closingCalls]

theorem Streamed.nothingAfterEnding (streamed : Streamed r calls) (before after : List Call)
    (pulled : Pulled) (h : calls = before ++ .next pulled :: after) (ends : r.EndsWith pulled)
    (answer : Pulled) : .next answer ∉ after := by
  induction streamed generalizing before with
  | paused => simp at h
  | @row payload row rest decoded _ ih =>
      rcases before with _ | ⟨first, _ | ⟨second, before⟩⟩
      · simp only [List.nil_append, List.cons.injEq, Call.next.injEq] at h
        exact absurd decoded (ends payload row h.1.symm)
      · simp at h
      · simp only [List.cons_append, List.cons.injEq] at h
        exact ih before h.2.2
  | @ended last _ =>
      rcases before with _ | ⟨first, before⟩
      · simp only [List.nil_append, List.cons.injEq] at h
        rw [← h.2]
        exact next_notMem_closingCalls last answer
      · simp only [List.cons_append, List.cons.injEq] at h
        have hmem : .next pulled ∈ r.closingCalls last := by simp [h.2]
        exact absurd hmem (next_notMem_closingCalls last pulled)

theorem Streamed.decodesRows (streamed : Streamed r calls) :
    calls.filterMap Call.decoded? =
      (calls.filterMap Call.pulledRow?).map fun payload => (r.serializer.name, payload) := by
  induction streamed with
  | paused => rfl
  | row _ _ ih => simp [List.filterMap_cons, Call.decoded?, Call.pulledRow?, ih]
  | @ended pulled _ => rcases pulled with _ | (_ | _ | _) <;> rfl

theorem Streamed.disciplined (streamed : Streamed r calls) : Disciplined r calls where
  submitOnce := by
    rw [streamed.filter_onTransport]
    exact Nat.zero_le 1
  submitFirst before after h := by
    have hmem : .submit ∈ calls := by simp [h]
    exact absurd hmem streamed.submit_notMem
  trailerLast := streamed.trailerLast
  trailerAfterEnd := streamed.trailerAfterEnd
  endBeforeTrailer := streamed.endBeforeTrailer
  nothingAfterEnding := streamed.nothingAfterEnding
  decodesRows := streamed.decodesRows

/-- A submission in front changes nothing about the calls that follow. -/
theorem Streamed.disciplined_submit (streamed : Streamed r calls) :
    Disciplined r (.submit :: calls) where
  submitOnce := by
    rw [List.filter_cons_of_pos rfl, streamed.filter_onTransport]
    exact Nat.le_refl 1
  submitFirst before after h := by
    rcases before with _ | ⟨first, before⟩
    · rfl
    · simp only [List.cons_append, List.cons.injEq] at h
      have hmem : .submit ∈ calls := by simp [h.2]
      exact absurd hmem streamed.submit_notMem
  trailerLast := streamed.trailerLast
  trailerAfterEnd before after h := by
    rcases before with _ | ⟨first, before⟩
    · simp at h
    · simp only [List.cons_append, List.cons.injEq] at h
      rw [List.getLast?_cons, streamed.trailerAfterEnd before after h.2]
      rfl
  endBeforeTrailer before after h := by
    rcases before with _ | ⟨first, before⟩
    · simp at h
    · simp only [List.cons_append, List.cons.injEq] at h
      exact streamed.endBeforeTrailer before after h.2
  nothingAfterEnding before after pulled h ends answer := by
    rcases before with _ | ⟨first, before⟩
    · simp at h
    · simp only [List.cons_append, List.cons.injEq] at h
      exact streamed.nothingAfterEnding before after pulled h.2 ends answer
  decodesRows := streamed.decodesRows

theorem Called.disciplined (called : Called r calls) : Disciplined r calls := by
  cases called with
  | nothing => exact Streamed.paused.disciplined
  | submitted _ tail => exact tail.disciplined_submit
  | streamed _ tail => exact tail.disciplined

end Discipline

/-- Whatever is called on a request and however its transport and its source behave, the
calls that it makes follow the discipline; a request that was submitted elsewhere submits
nothing. -/
theorem run_disciplined [Transport κ ω σ] [RowSource σ] [RowType ρ] (origin : Origin κ σ)
    (query : EncodedQuery) (events : List (Event ω)) (state : ω) :
    let r : Request κ σ ρ := origin.request query
    let calls := Signal.calls (run events r state).signals
    Disciplined r calls ∧ ∀ rows, origin = .source rows → .submit ∉ calls := by
  have called := (run_shows (origin.sound (ρ := ρ) query) events state).moves.called
  refine ⟨called.disciplined, ?_⟩
  rintro rows rfl
  exact (called.streamed_of_streaming rfl).submit_notMem

end Request

end DocViews
