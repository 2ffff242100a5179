import DocViews.Proofs.Request.Consumption
import DocViews.Proofs.Request.Provenance
import Mathlib.Data.List.Forall2

/-!
Requests that differ in the type of their rows only. A raw request delivers the values that the
serializer reads; one with a row type makes a row of each of them. The two go on in lockstep,
with the same calls, until a value is no row of that type: there the typed request fails, and
pulls nothing further.
-/

namespace DocViews.Request

variable {κ ω σ ρ : Type}

/-- The request with rows that are made of the values in another way. -/
def mapping (r : Request κ σ Json.Value) (decode : Json.Value → Except Json.Cause ρ) :
    Request κ σ ρ :=
  { r with decode }

/-- The error with which a request fails at a value that is no row. -/
def misfit (cause : Json.Cause) : ViewError :=
  .internal ("failed to decode view row: " ++ cause.describe)

/-- Whether a raw answer becomes this one: a value becomes the row that is made of it, an error
is passed on. -/
inductive Mapped (decode : Json.Value → Except Json.Cause ρ) :
    Except ViewError Json.Value → Except ViewError ρ → Prop where
  | row {v : Json.Value} {row : ρ} (accepted : decode v = .ok row) :
      Mapped decode (.ok v) (.ok row)
  | error (error : ViewError) : Mapped decode (.error error) (.error error)

/-- What so many pulls of a request come to, in each of the ways to pull: to ask for one row
after another, to take up the stream of rows, and to collect them. -/
structure Pulls [Transport κ ω σ] [RowSource σ] (n : Nat) (r : Request κ σ ρ) (state : ω)
    (given : Result κ ω σ ρ (List (Except ViewError ρ))) : Prop where
  byNext : nexts n r state = { given with
    answer := given.answer.map some ++ List.replicate (n - given.answer.length) none }
  byRows : r.rowsUpTo n state = { given with answer := .ok given.answer }
  byExecute : ∃ verdict, Collected given.answer verdict ∧
    r.executeUpTo n state = { given with answer := verdict }

section Origin

variable (origin : Origin κ σ) (query : EncodedQuery)

theorem Origin.live [RowType ρ] : (origin.request query : Request κ σ ρ).stage ≠ .done := by
  cases origin with
  | transport handle limit => exact nofun
  | source rows => exact nofun

/-- Raw values are taken as they are read. -/
theorem Origin.raw : (origin.request query : Request κ σ Json.Value).decode = .ok := by
  cases origin with
  | transport handle limit => rfl
  | source rows => rfl

/-- The row type is all that two requests of one origin for one query differ in. -/
theorem Origin.request_eq_mapping [RowType ρ] : (origin.request query : Request κ σ ρ) =
    (origin.request query : Request κ σ Json.Value).mapping RowType.ofValue := by
  cases origin with
  | transport handle limit => rfl
  | source rows => rfl

end Origin

section Pulling

variable [Transport κ ω σ] [RowSource σ] {r : Request κ σ ρ}

theorem takeRows_cons {item : Except ViewError ρ} {state : ω}
    (given : (r.next state).answer = some item) (n : Nat) :
    let more := takeRows n (r.next state).request (r.next state).state
    takeRows (n + 1) r state =
      ⟨item :: more.answer, more.request, more.state, (r.next state).signals ++ more.signals⟩ := by
  simp only [takeRows, given]

theorem takeRows_nothing {state : ω} (none_left : (r.next state).answer = none) (n : Nat) :
    takeRows (n + 1) r state =
      ⟨[], (r.next state).request, (r.next state).state, (r.next state).signals⟩ := by
  simp only [takeRows, none_left]

/-- Asking goes on after the last row, and is answered with nothing. -/
theorem nexts_takeRows (h : r.Sound) (n : Nat) (state : ω) :
    nexts n r state = { takeRows n r state with
      answer := (takeRows n r state).answer.map some ++
        List.replicate (n - (takeRows n r state).answer.length) none } := by
  induction n generalizing r state with
  | zero => rfl
  | succ n ih =>
      cases hanswer : (r.next state).answer with
      | none =>
          have finished := next_ends h state (by simp [hanswer])
          rw [nexts, takeRows_nothing hanswer, nexts_over finished, hanswer]
          simp only [List.append_nil]
          rfl
      | some item =>
          rw [nexts, takeRows_cons hanswer, ih (next_sound h state), hanswer]
          simp only [List.map_cons, List.cons_append, List.length_cons, Nat.add_sub_add_right]

theorem pulls (h : r.Sound) (live : r.stage ≠ .done) (n : Nat) (state : ω) :
    Pulls n r state (takeRows n r state) := by
  have hpull : r.stage.canPull := Stage.canPull_iff.mpr live
  obtain ⟨verdict, collected, hcollect⟩ := collectUpTo_eq h n state
  refine ⟨nexts_takeRows h n state, ?_, verdict, collected, ?_⟩
  · simp only [rowsUpTo, if_pos hpull]
  · rw [executeUpTo, if_pos hpull, hcollect]

end Pulling

section Submit

variable [Transport κ ω σ] {r : Request κ σ Json.Value} {decode : Json.Value → Except Json.Cause ρ}

/-- A submission has nothing to do with the type of the rows. -/
theorem submit_mapping (r : Request κ σ Json.Value) (state : ω) :
    (r.mapping decode).submit state =
      ⟨(r.submit state).answer, (r.submit state).request.mapping decode, (r.submit state).state,
        (r.submit state).signals⟩ := by
  by_cases unsubmitted : r.stage.canSubmit
  · have mapped : (r.mapping decode).stage.canSubmit := unsubmitted
    cases held : r.transport with
    | none =>
        have held' : (r.mapping decode).transport = none := held
        simp only [submit, if_pos unsubmitted, if_pos mapped, held, held']
        rfl
    | some handle =>
        have held' : (r.mapping decode).transport = some handle := held
        simp only [submit, if_pos unsubmitted, if_pos mapped, held, held', submitThrough]
        have sent : Transport.submit handle (r.mapping decode).query (r.mapping decode).timeout
            state = Transport.submit handle r.query r.timeout state := rfl
        rw [sent]
        cases (Transport.submit handle r.query r.timeout state).outcome <;> rfl
  · have mapped : ¬ (r.mapping decode).stage.canSubmit := unsubmitted
    simp only [submit, if_neg unsubmitted, if_neg mapped]
    rfl

theorem submit_raw (raw : r.decode = .ok) (h : r.Sound) (state : ω) :
    (r.submit state).request.decode = .ok ∧
      (r.submit state).request.rowsStreamed = r.rowsStreamed := by
  have hcase := submit_case h state
  generalize r.submit state = result at hcase ⊢
  cases hcase with
  | refused started => exact ⟨raw, rfl⟩
  | accepted unsubmitted held sent => exact ⟨raw, rfl⟩
  | rejected unsubmitted held sent => exact ⟨raw, rfl⟩

end Submit

section Raw

variable {r : Request κ σ Json.Value} {decode : Json.Value → Except Json.Cause ρ}

/-- A raw request accepts every value, so that its stream ends in no way that another one's
could not. -/
theorem Ending.mapping [RowSource σ] {after : σ} {pulled : Pulled}
    {result : Except ViewError Metadata} (ending : Ending r after pulled result)
    (raw : r.decode = .ok) : Ending (r.mapping decode) after pulled result := by
  cases ending with
  | knownFault error => exact .knownFault error
  | foreignFault message => exact .foreignFault message
  | marker m => exact .marker m
  | unreadable rejected => exact .unreadable rejected
  | misshapen read rejected =>
      rw [raw] at rejected
      cases rejected
  | knownFaultAtEnd refused => exact .knownFaultAtEnd refused
  | foreignFaultAtEnd refused => exact .foreignFaultAtEnd refused
  | unreadableTrailer given rejected => exact .unreadableTrailer given rejected
  | trailer given read => exact .trailer given read

theorem closingSignals_mapping (r : Request κ σ Json.Value) (pulled : Pulled)
    (result : Except ViewError Metadata) :
    (r.mapping decode).closingSignals pulled result = r.closingSignals pulled result := by
  cases result with
  | ok metadata => rfl
  | error error => rcases pulled with fault | (payload | m | _) <;> rfl

/-- How a pull of a request with a row type goes beside that of the raw one, when so many rows
have been handed out: with the same calls, and a row for a value, or it fails at a value that is
no row. -/
inductive Beside (decode : Json.Value → Except Json.Cause ρ) (rows : Nat) :
    Result κ ω σ Json.Value (Pull Json.Value) → Result κ ω σ ρ (Pull ρ) → Prop where
  | mapped {raw : Pull Json.Value} {answer : Pull ρ} {after : Request κ σ Json.Value} {state : ω}
      {signals : List Signal} (pulled : Option.Rel (Mapped decode) raw answer)
      (counted : ∀ v, raw = some (.ok v) → after.rowsStreamed = rows + 1) :
      Beside decode rows ⟨raw, after, state, signals⟩
        ⟨answer, after.mapping decode, state, signals⟩
  | misfit {v : Json.Value} {cause : Json.Cause} {after : Request κ σ Json.Value} {state : ω}
      {signals others : List Signal} (rejected : decode v = .error cause)
      (calls : Signal.calls others = Signal.calls signals) :
      Beside decode rows ⟨some (.ok v), after, state, signals⟩
        ⟨some (.error (misfit cause)),
          { (after.mapping decode).closed none with rowsStreamed := rows }, state, others⟩

theorem Beside.behind {rows : Nat} {raw : Result κ ω σ Json.Value (Pull Json.Value)}
    {typed : Result κ ω σ ρ (Pull ρ)} (beside : Beside decode rows raw typed)
    (before : List Signal) :
    Beside decode rows { raw with signals := before ++ raw.signals }
      { typed with signals := before ++ typed.signals } := by
  cases beside with
  | mapped pulled counted => exact .mapped pulled counted
  | misfit rejected calls =>
      refine .misfit rejected ?_
      rw [Signal.calls_append, Signal.calls_append, calls]

variable [RowSource σ]

theorem pull_beside (decode : Json.Value → Except Json.Cause ρ) (h : r.Sound)
    (streaming : r.stage = .streaming) (raw : r.decode = .ok) (state : ω) :
    Beside decode r.rowsStreamed ⟨r.pull.1, r.pull.2.1, state, r.pull.2.2⟩
      ⟨(r.mapping decode).pull.1, (r.mapping decode).pull.2.1, state,
        (r.mapping decode).pull.2.2⟩ ∧ r.pull.2.1.decode = .ok := by
  obtain ⟨-, released, blank, -⟩ := h.streaming streaming
  have hcase := pull_case h streaming
  generalize r.pull = result at hcase ⊢
  cases hcase with
  | @row source after payload v held answered decoded =>
      refine ⟨?_, raw⟩
      obtain ⟨v', read, hv⟩ := decodeRow_eq_ok.mp decoded
      rw [raw] at hv
      cases hv
      cases hrow : decode v with
      | ok row =>
          have typed : (r.mapping decode).decodeRow payload = .ok row :=
            decodeRow_eq_ok.mpr ⟨v, read, hrow⟩
          rw [pull_row (r := r.mapping decode) held answered typed]
          exact .mapped (.some (.row hrow)) fun _ _ => rfl
      | error cause =>
          have ending : Ending (r.mapping decode) after (.ok (.row payload))
              (.error (misfit cause)) := .misshapen read hrow
          rw [pull_closed (r := r.mapping decode) held released blank answered ending]
          exact .misfit hrow rfl
  | @failed source after pulled error held answered ending =>
      rw [pull_closed (r := r.mapping decode) held released blank answered (ending.mapping raw),
        closingSignals_mapping]
      exact ⟨.mapped (.some (.error error)) nofun, raw⟩
  | @finished source after metadata held answered ending =>
      rw [pull_closed (r := r.mapping decode) held released blank answered (ending.mapping raw),
        closingSignals_mapping]
      exact ⟨.mapped .none nofun, raw⟩

variable [Transport κ ω σ]

theorem next_beside (decode : Json.Value → Except Json.Cause ρ) (h : r.Sound)
    (raw : r.decode = .ok) (state : ω) :
    Beside decode r.rowsStreamed (r.next state) ((r.mapping decode).next state) ∧
      (r.next state).request.decode = .ok := by
  cases hstage : r.stage with
  | done =>
      rw [next_done hstage, next_done (r := r.mapping decode) hstage]
      exact ⟨.mapped .none nofun, raw⟩
  | streaming =>
      rw [next_streaming hstage, next_streaming (r := r.mapping decode) hstage]
      exact pull_beside decode h hstage raw state
  | notStarted =>
      have sound := (submit_shows h state).sound h
      obtain ⟨raw', rows⟩ := submit_raw raw h state
      rw [next_notStarted hstage, next_notStarted (r := r.mapping decode) hstage, submit_mapping]
      cases hanswer : (r.submit state).answer with
      | error error => exact ⟨.mapped (.some (.error error)) nofun, raw'⟩
      | ok _ =>
          obtain ⟨beside, decodes⟩ := pull_beside decode sound
            (submit_streaming hanswer) raw' (r.submit state).state
          refine ⟨?_, decodes⟩
          rw [← rows]
          exact beside.behind (r.submit state).signals

/-- So many pulls deliver only values that are rows: each of them is mapped, and all else is the
same. -/
def MapsAll (decode : Json.Value → Except Json.Cause ρ) (n : Nat) (r : Request κ σ Json.Value)
    (state : ω) : Prop :=
  let raw := takeRows n r state
  ∃ items, List.Forall₂ (Mapped decode) raw.answer items ∧
    takeRows n (r.mapping decode) state =
      ⟨items, raw.request.mapping decode, raw.state, raw.signals⟩

/-- Among what so many pulls deliver is a value that is no row, behind others that are. The
typed request has delivered those when it fails, has no metadata, and has made no further call
than the raw one up to that value. -/
def Rejects (decode : Json.Value → Except Json.Cause ρ) (n : Nat) (r : Request κ σ Json.Value)
    (state : ω) : Prop :=
  ∃ (accepted : List Json.Value) (v : Json.Value) (rest : List (Except ViewError Json.Value))
    (rows : List ρ) (cause : Json.Cause),
    (takeRows n r state).answer = accepted.map .ok ++ .ok v :: rest ∧
      accepted.map decode = rows.map .ok ∧ decode v = .error cause ∧
      let typed := takeRows n (r.mapping decode) state
      let reached := takeRows (accepted.length + 1) r state
      typed.answer = rows.map .ok ++ [.error (misfit cause)] ∧
        typed.request.stage = .done ∧ typed.request.metadata? = none ∧
        typed.request.rowsStreamed = r.rowsStreamed + accepted.length ∧
        typed.state = reached.state ∧ Signal.calls typed.signals = Signal.calls reached.signals

/-- A value in front that is a row puts off where the typed request fails. -/
theorem Rejects.behind {n : Nat} {first : Json.Value} {row : ρ} {after : Request κ σ Json.Value}
    {state state' : ω} {signals : List Signal} (hrow : decode first = .ok row)
    (given : r.next state = ⟨some (.ok first), after, state', signals⟩)
    (typed : (r.mapping decode).next state =
      ⟨some (.ok row), after.mapping decode, state', signals⟩)
    (counted : after.rowsStreamed = r.rowsStreamed + 1) (rejects : Rejects decode n after state') :
    Rejects decode (n + 1) r state := by
  obtain ⟨accepted, v, rest, rows, cause, hdelivered, haccepted, rejected,
    hanswer, hstage, hmetadata, hrows, hstate, hcalls⟩ := rejects
  refine ⟨first :: accepted, v, rest, row :: rows, cause, ?_, ?_, rejected, ?_⟩
  · simp only [takeRows, given, hdelivered]
    rfl
  · rw [List.map_cons, List.map_cons, haccepted, hrow]
  · simp only [List.length_cons, takeRows, given, typed, hanswer, hstage, hmetadata, hrows, hstate,
      Signal.calls_append, hcalls]
    refine ⟨rfl, trivial, trivial, ?_, trivial, trivial⟩
    omega

/-- The typed request beside the raw one, however often they are pulled. -/
theorem takeRows_mapping (decode : Json.Value → Except Json.Cause ρ) (h : r.Sound)
    (raw : r.decode = .ok) (n : Nat) (state : ω) :
    MapsAll decode n r state ∨ Rejects decode n r state := by
  induction n generalizing r state with
  | zero => exact .inl ⟨[], .nil, rfl⟩
  | succ n ih =>
      obtain ⟨beside, raw'⟩ := next_beside decode h raw state
      have further := ih (next_sound h state) raw' (r.next state).state
      have ends := next_ends h state
      generalize hraw : r.next state = first at beside further ends
      generalize htyped : (r.mapping decode).next state = second at beside
      cases beside with
      | @misfit v cause after state' signals others rejected calls =>
          have finished := takeRows_done (r := { (after.mapping decode).closed none with
            rowsStreamed := r.rowsStreamed }) rfl n state'
          refine .inr ⟨[], v, (takeRows n after state').answer, [], cause, ?_, rfl, rejected, ?_⟩
          · simp only [takeRows, hraw]
            rfl
          · simp only [takeRows, hraw, htyped, finished]
            exact ⟨rfl, rfl, rfl, rfl, rfl, by simpa [takeRows] using calls⟩
      | @mapped item answer after state' signals pulled counted =>
          cases pulled with
          | none =>
              refine .inl ⟨[], ?_, ?_⟩
              · simp only [takeRows, hraw]
                exact .nil
              · simp only [takeRows, hraw, htyped]
          | @some item mapped hmapped =>
              rcases further with ⟨items, all, hmore⟩ | rejects
              · refine .inl ⟨mapped :: items, ?_, ?_⟩
                · simp only [takeRows, hraw]
                  exact .cons hmapped all
                · simp only [takeRows, hraw, htyped, hmore]
              · cases hmapped with
                | row hrow => exact .inr (rejects.behind hrow hraw htyped (counted _ rfl))
                | error error =>
                    -- A raw request that has failed delivers nothing further.
                    obtain ⟨accepted, v, rest, -, -, hdelivered, -⟩ := rejects
                    rw [takeRows_done (ends (by simp))] at hdelivered
                    simp at hdelivered

end Raw

section Delivered

variable [Transport κ ω σ] [RowSource σ] {r : Request κ σ ρ} {row : ρ}

/-- A row that a streaming request delivers is decoded from a payload of its source. -/
theorem delivered_streaming {n : Nat} {source : σ} {state : ω} (h : r.Sound)
    (streaming : r.stage = .streaming) (held : r.source = some source)
    (mem : .ok row ∈ (takeRows n r state).answer) :
    ∃ i payload, RowSource.answer source i = .ok (.row payload) ∧
      r.decodeRow payload = .ok row := by
  induction n generalizing r source with
  | zero => cases mem
  | succ n ih =>
      have sound := next_sound h state
      have ends := next_ends h state
      have hcase := pull_case h streaming
      rw [next_streaming streaming] at sound ends
      simp only [takeRows, next_streaming streaming] at mem
      generalize r.pull = result at hcase sound ends mem
      cases hcase with
      | finished held' answered ending => cases mem
      | failed held' answered ending =>
          simp only [takeRows_done (ends (by simp))] at mem
          cases mem with
          | tail _ mem => cases mem
      | @row source' after payload first held' answered decoded =>
          cases held.symm.trans held'
          rcases List.mem_cons.mp mem with hfirst | mem
          · cases hfirst
            refine ⟨0, payload, ?_, decoded⟩
            rw [RowSource.answer, RowSource.after, answered]
          · obtain ⟨i, payload, hanswer, hrow⟩ := ih sound streaming rfl mem
            refine ⟨i + 1, payload, ?_, hrow⟩
            rw [RowSource.answer, RowSource.after, answered]
            exact hanswer

/-- A submission that is accepted comes before the first row, and changes nothing about it. -/
theorem takeRows_begun {handle : κ} {source : σ} {state : ω} (unsubmitted : r.stage = .notStarted)
    (held : r.transport = some handle)
    (accepted : (Transport.submit handle r.query r.timeout state).outcome = .ok source) (n : Nat) :
    (takeRows (n + 1) r state).answer = (takeRows (n + 1) (r.begun source)
      (Transport.submit handle r.query r.timeout state).state).answer := by
  obtain ⟨signals, hsubmit, -⟩ := submit_accepted unsubmitted held accepted
  simp only [takeRows, next_notStarted unsubmitted, hsubmit,
    next_streaming (r := r.begun source) rfl]
  have begun : { r with
    transport := none, source := some source, stage := .streaming, timed := true } =
      r.begun source := rfl
  rw [begun]
  cases (r.begun source).pull.1 <;> rfl

/-- A row that a request delivers is decoded from a payload of the source that it asks. -/
theorem delivered {n : Nat} {state : ω} (h : r.Sound)
    (mem : .ok row ∈ (takeRows n r state).answer) :
    ∃ source calls i payload, Asks r state source calls ∧
      RowSource.answer source i = .ok (.row payload) ∧ r.decodeRow payload = .ok row := by
  cases hstage : r.stage with
  | done =>
      rw [takeRows_done hstage] at mem
      cases mem
  | streaming =>
      obtain ⟨⟨source, held⟩, -⟩ := h.streaming hstage
      obtain ⟨i, payload, hanswer, hrow⟩ := delivered_streaming h hstage held mem
      exact ⟨source, [], i, payload, .streaming hstage held, hanswer, hrow⟩
  | notStarted =>
      obtain ⟨⟨handle, held⟩, -⟩ := h.notStarted hstage
      cases n with
      | zero => cases mem
      | succ n =>
          cases sent : (Transport.submit handle r.query r.timeout state).outcome with
          | error error =>
              obtain ⟨signals, hsubmit, -⟩ := submit_rejected hstage held sent
              have finished : (r.closed r.metadata?).stage = .done := rfl
              simp only [takeRows, next_notStarted hstage, hsubmit, takeRows_done finished] at mem
              cases mem with
              | tail _ mem => cases mem
          | ok source =>
              have sound : (r.begun source).Sound :=
                Move.sound (.accepted source hstage) h
              rw [takeRows_begun hstage held sent] at mem
              obtain ⟨i, payload, hanswer, hrow⟩ := delivered_streaming sound rfl rfl mem
              exact ⟨source, _, i, payload, .submitted hstage held sent, hanswer, hrow⟩

end Delivered

end DocViews.Request
