import DocViews.Proofs.Request.Operations
import DocViews.Route

/-!
What a caller gets who asks a streaming request for one row after another: the rows of the
source as far as they decode, then one answer that tells how the stream ended, and then
nothing ever after.
-/

namespace DocViews

namespace RowSource

variable {σ : Type} [RowSource σ]

/-- The source after so many items were pulled. -/
def after (source : σ) : Nat → σ
  | 0 => source
  | n + 1 => after (RowSource.next source).2 n

/-- What the source answers to the pull that comes after `n` others. -/
def answer (source : σ) (n : Nat) : Pulled := (RowSource.next (after source n)).1

theorem next_after (source : σ) (n : Nat) :
    RowSource.next (after source n) = (answer source n, after source (n + 1)) := by
  induction n generalizing source with
  | zero => rfl
  | succ n ih => exact ih (RowSource.next source).2

end RowSource

namespace Request

variable {κ ω σ ρ : Type}

/-- A request that is pulling rows from this source. -/
structure StreamsFrom (r : Request κ σ ρ) (source : σ) : Prop where
  stage : r.stage = .streaming
  held : r.source = some source
  released : r.transport = none
  blank : r.metadata? = none

section Streaming

variable [RowSource σ]

/-- The row in the answer to the pull that comes after `n` others, if it is a row that decodes. -/
def rowAt (r : Request κ σ ρ) (source : σ) (n : Nat) : Option ρ :=
  match RowSource.answer source n with
  | .ok (.row payload) => (r.decodeRow payload).toOption
  | _ => none

/-- The request once so many rows were handed out. -/
def advanced (r : Request κ σ ρ) (source : σ) (n : Nat) : Request κ σ ρ :=
  { r with source := some (RowSource.after source n), rowsStreamed := r.rowsStreamed + n }

variable {r : Request κ σ ρ} {source : σ}

theorem StreamsFrom.advanced (streams : r.StreamsFrom source) (n : Nat) :
    (r.advanced source n).StreamsFrom (RowSource.after source n) :=
  ⟨streams.stage, rfl, streams.released, streams.blank⟩

theorem advanced_advanced (k : Nat) :
    (r.advanced source k).advanced (RowSource.after source k) 1 = r.advanced source (k + 1) := by
  have hafter : RowSource.after (RowSource.after source k) 1 = RowSource.after source (k + 1) :=
    congrArg Prod.snd (RowSource.next_after source k)
  simp only [advanced, hafter, Nat.add_assoc]

theorem rowAt_eq_some {n : Nat} {row : ρ} (h : r.rowAt source n = some row) :
    ∃ payload, RowSource.answer source n = .ok (.row payload) ∧ r.decodeRow payload = .ok row := by
  unfold rowAt at h
  split at h
  · next payload hanswer =>
      refine ⟨payload, hanswer, ?_⟩
      cases hrow : r.decodeRow payload with
      | error e => simp [hrow, Except.toOption] at h
      | ok row' =>
          simp only [hrow, Except.toOption, Option.some.injEq] at h
          rw [h]
  · cases h

theorem endsWith_of_rowAt_eq_none {n : Nat} (h : r.rowAt source n = none) :
    r.EndsWith (RowSource.answer source n) := by
  intro payload row hanswer hrow
  simp [rowAt, hanswer, hrow, Except.toOption] at h

end Streaming

section Nexts

variable [Transport κ ω σ] [RowSource σ]

/-- So many rows, asked for one after another. -/
def nexts : Nat → Request κ σ ρ → ω → Result κ ω σ ρ (List (Pull ρ))
  | 0, r, state => ⟨[], r, state, []⟩
  | n + 1, r, state =>
      let first := r.next state
      let more := nexts n first.request first.state
      ⟨first.answer :: more.answer, more.request, more.state, first.signals ++ more.signals⟩

variable {r : Request κ σ ρ} {source : σ}

theorem nexts_add (m n : Nat) (r : Request κ σ ρ) (state : ω) :
    let first := nexts m r state
    let more := nexts n first.request first.state
    nexts (m + n) r state =
      ⟨first.answer ++ more.answer, more.request, more.state, first.signals ++ more.signals⟩ := by
  induction m generalizing r state with
  | zero => simp [nexts]
  | succ m ih =>
      rw [Nat.succ_add]
      simp only [nexts, ih, List.cons_append, List.append_assoc]

/-- The last row is asked for once the others are there. -/
theorem nexts_succ (n : Nat) (r : Request κ σ ρ) (state : ω) :
    let first := nexts n r state
    let last := first.request.next first.state
    nexts (n + 1) r state =
      ⟨first.answer ++ [last.answer], last.request, last.state, first.signals ++ last.signals⟩ := by
  rw [nexts_add]
  simp only [nexts, List.append_nil]

theorem next_row {n : Nat} {row : ρ} (streams : r.StreamsFrom (RowSource.after source n))
    (found : r.rowAt source n = some row) (state : ω) :
    (r.next state).answer = some (.ok row) ∧
      (r.next state).request = r.advanced (RowSource.after source n) 1 := by
  obtain ⟨payload, hanswer, hrow⟩ := rowAt_eq_some found
  have answered := RowSource.next_after source n
  rw [hanswer] at answered
  rw [next_streaming streams.stage, pull_row streams.held answered hrow]
  refine ⟨rfl, ?_⟩
  simp only [advanced, RowSource.after, answered]

/-- As long as the rows decode, they are handed out in their order. -/
theorem nexts_rows (streams : r.StreamsFrom source) (k : Nat)
    (rows : ∀ i < k, (r.rowAt source i).isSome) (state : ω) :
    (nexts k r state).answer = (List.range k).map (fun i => (r.rowAt source i).map .ok) ∧
      (nexts k r state).request = r.advanced source k := by
  induction k with
  | zero =>
      refine ⟨rfl, ?_⟩
      have held := streams.held
      cases r
      simp_all [nexts, advanced, RowSource.after]
  | succ k ih =>
      obtain ⟨hanswer, hrequest⟩ := ih fun i hi => rows i (Nat.lt_succ_of_lt hi)
      obtain ⟨row, hrow⟩ := Option.isSome_iff_exists.mp (rows k (Nat.lt_succ_self k))
      have found : (r.advanced source k).rowAt source k = some row := hrow
      obtain ⟨hlast, hafter⟩ := next_row (streams.advanced k) found (nexts k r state).state
      rw [nexts_succ]
      simp only [hrequest, hlast, hafter, hanswer, advanced_advanced]
      refine ⟨?_, trivial⟩
      rw [List.range_succ, List.map_append]
      simp [hrow]

theorem nexts_over (finished : r.stage = .done) (m : Nat) (state : ω) :
    nexts m r state = ⟨List.replicate m none, r, state, []⟩ := by
  induction m with
  | zero => rfl
  | succ m ih =>
      simp only [nexts, next_done finished, ih]
      rfl

theorem nexts_done (done : r.stage = .done) (m : Nat) (state : ω) :
    (nexts m r state).answer = List.replicate m none ∧ (nexts m r state).request = r := by
  rw [nexts_over done]
  exact ⟨rfl, rfl⟩

/-- The answer that is no row closes the stream. -/
theorem next_ending {n : Nat} {result : Except ViewError Metadata}
    (streams : r.StreamsFrom (RowSource.after source n))
    (ending : Ending r (RowSource.after source (n + 1)) (RowSource.answer source n) result)
    (state : ω) :
    (r.next state).answer = lastAnswer result ∧
      (r.next state).request = r.closed result.toOption := by
  have hpull := pull_closed streams.held streams.released streams.blank
    (RowSource.next_after source n) ending
  rw [next_streaming streams.stage, hpull]
  exact ⟨rfl, rfl⟩

/-- The semantics of a stream. While rows decode, they are handed out in order, and the
request goes on streaming. The first answer that is no row that decodes, the one to the pull
after `k` rows, gives one more answer: none at the natural end, else one error, which is the
one of its kind of ending. From then on there is nothing, the request is done, and it has
metadata exactly if the end was the natural one with a trailer that decodes. -/
theorem nexts_stream (streams : r.StreamsFrom source) (k : Nat)
    (rows : ∀ i < k, (r.rowAt source i).isSome) (state : ω) :
    let got := nexts k r state
    let decoded := (List.range k).map fun i => (r.rowAt source i).map .ok
    (got.answer = decoded ∧ got.request.stage = .streaming ∧
      got.request.rowsStreamed = r.rowsStreamed + k ∧ got.request.metadata? = none) ∧
    (r.rowAt source k = none → ∃ result,
      Ending r (RowSource.after source (k + 1)) (RowSource.answer source k) result ∧
      ∀ m, let all := nexts (k + 1 + m) r state
        all.answer = decoded ++ lastAnswer result :: List.replicate m none ∧
        all.request.stage = .done ∧ all.request.rowsStreamed = r.rowsStreamed + k ∧
        all.request.metadata? = result.toOption ∧
        (all.request.metadata?.isSome ↔
          RowSource.answer source k = .ok .finished ∧
            ∃ payload metadata,
              (RowSource.trailer (RowSource.after source (k + 1))).1 = .ok payload ∧
              Metadata.read payload = .ok metadata)) := by
  obtain ⟨hanswer, hrequest⟩ := nexts_rows streams k rows state
  have going := streams.advanced k
  refine ⟨⟨hanswer, ?_, ?_, ?_⟩, ?_⟩
  · rw [hrequest]
    exact going.stage
  · rw [hrequest]
    rfl
  · rw [hrequest]
    exact going.blank
  intro hnone
  obtain ⟨result, ending⟩ :=
    (endsWith_of_rowAt_eq_none hnone).ending (RowSource.after source (k + 1))
  refine ⟨result, ending, fun m => ?_⟩
  have endingHere : Ending (r.advanced source k) (RowSource.after source (k + 1))
      (RowSource.answer source k) result := ending.congr rfl rfl
  -- The rows, the answer that closes, and the silence after it are put together.
  obtain ⟨hlast, hclosed⟩ := next_ending going endingHere (nexts k r state).state
  obtain ⟨hnothing, hover⟩ := nexts_done (r := (r.advanced source k).closed result.toOption) rfl m
    ((r.advanced source k).next (nexts k r state).state).state
  rw [nexts_add, nexts_succ]
  simp only [hrequest, hanswer, hlast, hclosed, hnothing, hover]
  refine ⟨?_, rfl, rfl, rfl, ending.metadata_iff⟩
  rw [List.append_assoc]
  rfl

end Nexts

/-- A source that is lost after one row. -/
def lostSource : ScriptedSource := ⟨[.ok (.row [0x31]), .error (.foreign "lost")], none⟩

/-- One row, then the fault, then nothing. -/
theorem nexts_stream_lostSource :
    let r : Request Route ScriptedSource Json.Value := .ofSource lostSource .empty
    (nexts 3 r {}).answer =
        [(r.rowAt lostSource 0).map .ok, some (.error (.internal "lost")), none] ∧
      (nexts 3 r {}).request.stage = .done ∧ (nexts 3 r {}).request.rowsStreamed = 1 ∧
      (nexts 3 r {}).request.metadata? = none := by
  intro r
  have streams : r.StreamsFrom lostSource := ⟨rfl, rfl, rfl, rfl⟩
  obtain ⟨-, ends⟩ := nexts_stream streams 1 (by decide) {}
  obtain ⟨result, ending, all⟩ := ends rfl
  have hresult : result = .error (.internal "lost") :=
    ending.unique (.foreignFault (r := r) "lost")
  subst hresult
  obtain ⟨answer, stage, rowsStreamed, metadata, -⟩ := all 1
  exact ⟨answer, stage, rowsStreamed, metadata⟩

end Request

end DocViews
