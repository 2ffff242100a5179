import DocViews.Proofs.Request.Stream

/-!
What collecting the rows of a stream comes to: all of them if the stream ends well, else the
error that ends it. Scripts are streams whose answers are known in advance.
-/

namespace DocViews

namespace ScriptedSource

variable (script : List Pulled) (trailer : Option (Except Fault Bytes))

theorem after_script (n : Nat) :
    RowSource.after (ScriptedSource.mk script trailer) n = ⟨script.drop n, trailer⟩ := by
  induction n generalizing script with
  | zero => rfl
  | succ n ih =>
      cases script with
      | nil =>
          have hdrop : ([] : List Pulled).drop n = [].drop (n + 1) := by simp
          rw [← hdrop]
          exact ih []
      | cons pulled rest => exact ih rest

/-- A script answers with its items in their order, and then that there is none left. -/
theorem answer_script (n : Nat) :
    RowSource.answer (ScriptedSource.mk script trailer) n = script[n]?.getD (.ok .finished) := by
  unfold RowSource.answer
  rw [after_script]
  cases hdrop : script.drop n with
  | nil =>
      rw [List.getElem?_eq_none (List.drop_eq_nil_iff.mp hdrop)]
      rfl
  | cons pulled rest =>
      have hitem : script[n]? = some pulled := by
        rw [← List.head?_drop, hdrop]
        rfl
      rw [hitem]
      rfl

/-- Rows, the end of the rows, and a trailer. -/
def whole (payloads : List Bytes) (trailer : Bytes) : ScriptedSource :=
  ⟨payloads.map (fun payload => .ok (.row payload)) ++ [.ok .finished], some (.ok trailer)⟩

variable {payloads : List Bytes} {trailer : Bytes}

theorem answer_whole_length :
    RowSource.answer (whole payloads trailer) payloads.length = .ok .finished := by
  rw [whole, answer_script]
  simp

theorem trailer_whole (n : Nat) :
    (RowSource.trailer (RowSource.after (whole payloads trailer) n)).1 = .ok trailer := by
  rw [whole, after_script]
  rfl

end ScriptedSource

namespace Request

variable {κ ω σ ρ : Type}

section Collect

variable [Transport κ ω σ] [RowSource σ] {r : Request κ σ ρ} {source : σ}

/-- The rows that decode are collected up to the answer that is none, which says whether they
are given or withheld. -/
theorem collect_stream {rows : List ρ} {result : Except ViewError Metadata} {limit : Nat}
    (streams : r.StreamsFrom source)
    (found : ∀ i (h : i < rows.length), r.rowAt source i = some rows[i])
    (ending : Ending r (RowSource.after source (rows.length + 1))
      (RowSource.answer source rows.length) result)
    (enough : rows.length < limit) (state : ω) :
    (collectUpTo limit r state).answer = result.map (fun _ => rows) ∧
      (collectUpTo limit r state).request.stage = .done ∧
      (collectUpTo limit r state).request.metadata? = result.toOption := by
  -- Each row moves the request and its source, so both change along the expected rows.
  induction rows generalizing r source limit state with
  | nil =>
      obtain ⟨limit, rfl⟩ := Nat.exists_eq_succ_of_ne_zero (Nat.ne_of_gt enough)
      obtain ⟨hanswer, hrequest⟩ := next_ending (n := 0) streams ending state
      cases result with
      | error error =>
          simp only [collectUpTo, hanswer, hrequest, lastAnswer]
          exact ⟨rfl, rfl, rfl⟩
      | ok metadata =>
          simp only [collectUpTo, hanswer, hrequest, lastAnswer]
          exact ⟨rfl, rfl, rfl⟩
  | cons row rows ih =>
      obtain ⟨limit, rfl⟩ := Nat.exists_eq_succ_of_ne_zero (Nat.ne_of_gt (Nat.zero_lt_of_lt enough))
      have hfirst : r.rowAt source 0 = some row := found 0 (Nat.zero_lt_succ _)
      obtain ⟨hanswer, hrequest⟩ := next_row (n := 0) streams hfirst state
      have further : ∀ i (h : i < rows.length),
          (r.advanced source 1).rowAt (RowSource.after source 1) i = some rows[i] :=
        fun i h => found (i + 1) (Nat.succ_lt_succ h)
      obtain ⟨hrows, hstage, hmetadata⟩ := ih (streams.advanced 1) further (ending.congr rfl rfl)
        (Nat.lt_of_succ_lt_succ enough) (r.next state).state
      have hrequest' : (r.next state).request = r.advanced source 1 := hrequest
      simp only [collectUpTo, hanswer, hrequest']
      refine ⟨?_, hstage, hmetadata⟩
      rw [hrows]
      cases result <;> rfl

end Collect

section Execute

variable [Transport κ ω σ] [FiniteSource σ] {r : Request κ σ ρ} {handle : κ} {state : ω}

/-- Executing a request that has not started submits it, and collects what it is given. -/
theorem execute_accepted {source : σ} (unsubmitted : r.stage = .notStarted)
    (held : r.transport = some handle) (blank : r.metadata? = none)
    (accepted : (Transport.submit handle r.query r.timeout state).outcome = .ok source) :
    ∃ streaming : Request κ σ ρ, streaming.StreamsFrom source ∧
      streaming.serializer = r.serializer ∧ streaming.decode = r.decode ∧
      (r.execute state).answer =
        (collectUpTo (FiniteSource.remaining source + 1) streaming
          (Transport.submit handle r.query r.timeout state).state).answer ∧
      (r.execute state).request =
        (collectUpTo (FiniteSource.remaining source + 1) streaming
          (Transport.submit handle r.query r.timeout state).state).request := by
  obtain ⟨signals, hsubmit, -⟩ := submit_accepted unsubmitted held accepted
  have live : r.stage.canPull := Stage.canPull_iff.mpr (by simp [unsubmitted])
  have hready : r.ensureSubmitted state = r.submit state := by
    simp [ensureSubmitted, unsubmitted, Stage.canSubmit]
  refine ⟨{ r with
    transport := none, source := some source, stage := .streaming, timed := true },
    ⟨rfl, rfl, rfl, blank⟩, rfl, rfl, ?_⟩
  simp only [execute, if_pos live, hready, hsubmit, pullsLeft, and_self]

end Execute

/-- The rows in front of a script are found where they are, if their payloads decode. -/
theorem rowAt_script {r : Request κ ScriptedSource ρ} {payloads : List Bytes} {rows : List ρ}
    {source : ScriptedSource} {further : List Pulled}
    (decoded : payloads.map r.decodeRow = rows.map .ok)
    (script : source.script = payloads.map (fun payload => .ok (.row payload)) ++ further) :
    ∀ i (h : i < rows.length), r.rowAt source i = some rows[i] := by
  intro i hi
  have hlength : payloads.length = rows.length := by
    simpa using congrArg List.length decoded
  have hpayload : i < payloads.length := hlength ▸ hi
  have hrow : r.decodeRow payloads[i] = .ok rows[i] := by
    have hitem := congrArg (fun answers => answers[i]?) decoded
    simpa [hpayload, hi] using hitem
  have answered : RowSource.answer source i = .ok (.row payloads[i]) := by
    have hitem := ScriptedSource.answer_script source.script source.trailer i
    rw [script, List.getElem?_append_left (by simpa using hpayload)] at hitem
    simpa [← script, hpayload] using hitem
  unfold rowAt
  simp only [answered, hrow, Except.toOption]

section Script

variable [Transport κ ω ScriptedSource] {r : Request κ ScriptedSource ρ} {handle : κ} {state : ω}

/-- Rows that decode, and a trailer that decodes. -/
theorem execute_whole {payloads : List Bytes} {rows : List ρ} {trailer : Bytes}
    {metadata : Metadata} (unsubmitted : r.stage = .notStarted)
    (held : r.transport = some handle) (blank : r.metadata? = none)
    (accepted : (Transport.submit handle r.query r.timeout state).outcome =
      .ok (.whole payloads trailer))
    (decoded : payloads.map r.decodeRow = rows.map .ok)
    (read : Metadata.read trailer = .ok metadata) :
    (r.execute state).answer = .ok rows ∧ (r.execute state).request.stage = .done ∧
      (r.execute state).request.metadata? = some metadata := by
  obtain ⟨streaming, streams, hserializer, hdecode, hanswer, hrequest⟩ :=
    execute_accepted unsubmitted held blank accepted
  have hlength : payloads.length = rows.length := by
    simpa using congrArg List.length decoded
  have decoded' : payloads.map streaming.decodeRow = rows.map .ok := by
    have same : streaming.decodeRow = r.decodeRow := by
      funext payload
      simp only [decodeRow, hserializer, hdecode]
    rw [same, decoded]
  have found : ∀ i (h : i < rows.length),
      streaming.rowAt (.whole payloads trailer) i = some rows[i] := rowAt_script decoded' rfl
  have ending : Ending streaming
      (RowSource.after (ScriptedSource.whole payloads trailer) (rows.length + 1))
      (RowSource.answer (ScriptedSource.whole payloads trailer) rows.length) (.ok metadata) := by
    rw [← hlength, ScriptedSource.answer_whole_length]
    exact .trailer (ScriptedSource.trailer_whole _) read
  have enough : rows.length <
      FiniteSource.remaining (ScriptedSource.whole payloads trailer) + 1 := by
    have hremaining : FiniteSource.remaining (ScriptedSource.whole payloads trailer) =
        payloads.length + 1 := by
      show (payloads.map _ ++ [_]).length = _
      simp
    omega
  rw [hanswer, hrequest]
  exact collect_stream streams found ending enough _

/-- A script whose first answer ends the stream. -/
theorem execute_ended {pulled : Pulled} {rest : List Pulled}
    {trailer : Option (Except Fault Bytes)} {result : Except ViewError Metadata}
    (unsubmitted : r.stage = .notStarted) (held : r.transport = some handle)
    (blank : r.metadata? = none)
    (accepted : (Transport.submit handle r.query r.timeout state).outcome =
      .ok ⟨pulled :: rest, trailer⟩)
    (ending : Ending r (ScriptedSource.mk rest trailer) pulled result) :
    (r.execute state).answer = result.map (fun _ => []) ∧
      (r.execute state).request.stage = .done ∧
      (r.execute state).request.metadata? = result.toOption := by
  obtain ⟨streaming, streams, hserializer, hdecode, hanswer, hrequest⟩ :=
    execute_accepted unsubmitted held blank accepted
  have found : ∀ i (h : i < ([] : List ρ).length),
      streaming.rowAt ⟨pulled :: rest, trailer⟩ i = some [][i] := nofun
  rw [hanswer, hrequest]
  exact collect_stream streams found (ending.congr hserializer hdecode) (Nat.zero_lt_succ _) _

/-- A script that begins with a marker. -/
theorem execute_marker {m : Marker} {rest : List Pulled} {trailer : Option (Except Fault Bytes)}
    (unsubmitted : r.stage = .notStarted) (held : r.transport = some handle)
    (blank : r.metadata? = none)
    (accepted : (Transport.submit handle r.query r.timeout state).outcome =
      .ok ⟨.ok (.marker m) :: rest, trailer⟩) :
    (r.execute state).answer = .error (.ofMarker m) ∧
      (r.execute state).request.stage = .done ∧
      (r.execute state).request.metadata? = none :=
  execute_ended unsubmitted held blank accepted (.marker m)

end Script

end Request

end DocViews
