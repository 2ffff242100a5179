import DocViews.Proofs.Request.Representation
import DocViews.Proofs.Request.Stream

/-!
The ways of consuming a stream: asking for one row after another, the stream of rows, and
collecting all rows. They deliver the same rows, show the same and leave the request the same,
also when one goes on where another has stopped.
-/

namespace DocViews.Request

variable {κ ω σ ρ β : Type}

/-- The rows and errors that a call has delivered one by one. -/
def Answer.items : Answer ρ → List (Except ViewError ρ)
  | .next (some item) => [item]
  | .rows (.ok items) => items
  | _ => []

/-- Whether a call takes some rows, and leaves the others to later calls. -/
def Use.takes : Use → Bool
  | .next | .rows _ => true
  | _ => false

/-- What rows and perhaps an error, which comes last, are collected to. -/
inductive Collected : List (Except ViewError ρ) → Except ViewError (List ρ) → Prop where
  | rows (rows : List ρ) : Collected (rows.map .ok) (.ok rows)
  | error (rows : List ρ) (error : ViewError) :
      Collected (rows.map .ok ++ [.error error]) (.error error)

/-- The first error of what was collected, if there is one, is what it comes to. -/
theorem Collected.mapM_id {items : List (Except ViewError ρ)}
    {verdict : Except ViewError (List ρ)} (collected : Collected items verdict) :
    items.mapM id = verdict := by
  cases collected with
  | rows rows =>
      induction rows with
      | nil => rfl
      | cons row rows ih =>
          rw [List.map_cons, List.mapM_cons, ih]
          rfl
  | error rows error =>
      induction rows with
      | nil => rfl
      | cons row rows ih =>
          rw [List.map_cons, List.cons_append, List.mapM_cons, ih]
          rfl

theorem Collected.cons {items : List (Except ViewError ρ)} {verdict : Except ViewError (List ρ)}
    (collected : Collected items verdict) (row : ρ) :
    Collected (.ok row :: items) (verdict.map (row :: ·)) := by
  cases collected with
  | rows rows => exact .rows (row :: rows)
  | error rows error => exact .error (row :: rows) error

/-- The result with what was delivered and observed before. -/
def Result.behind (rest : Result κ ω σ ρ (List β)) (items : List β) (signals : List Signal) :
    Result κ ω σ ρ (List β) :=
  { rest with answer := items ++ rest.answer, signals := signals ++ rest.signals }

theorem Result.behind_nil (rest : Result κ ω σ ρ (List β)) : rest.behind [] [] = rest := rfl

theorem Result.behind_behind (rest : Result κ ω σ ρ (List β)) (items before : List β)
    (signals earlier : List Signal) :
    (rest.behind items signals).behind before earlier =
      rest.behind (before ++ items) (earlier ++ signals) := by
  simp [Result.behind]

section Submit

variable [Transport κ ω σ] {r : Request κ σ ρ} {state : ω}

theorem submit_ends {error : ViewError} (h : r.Sound) (unsubmitted : r.stage = .notStarted)
    (failed : (r.submit state).answer = .error error) :
    (r.submit state).request.stage = .done := by
  have hcase := submit_case h state
  generalize r.submit state = result at hcase failed ⊢
  cases hcase with
  | refused started => exact absurd unsubmitted started
  | accepted unsubmitted held sent => cases failed
  | rejected unsubmitted held sent => rfl

end Submit

section Steps

variable [Transport κ ω σ] [RowSource σ] {r : Request κ σ ρ} {state : ω}

/-- A pull that gives no row leaves nothing to pull. -/
theorem pull_ends (h : r.Sound) (streaming : r.stage = .streaming)
    (ends : ∀ row, r.pull.1 ≠ some (.ok row)) : r.pull.2.1.stage = .done := by
  have hcase := pull_case h streaming
  generalize r.pull = result at hcase ends ⊢
  cases hcase with
  | row held answered decoded => exact absurd rfl (ends _)
  | failed held answered ending => rfl
  | finished held answered ending => rfl

theorem next_ends (h : r.Sound) (state : ω) (ends : ∀ row, (r.next state).answer ≠ some (.ok row)) :
    (r.next state).request.stage = .done := by
  cases hstage : r.stage with
  | notStarted =>
      have sound := (submit_shows h state).sound h
      rw [next_notStarted hstage] at ends ⊢
      cases hanswer : (r.submit state).answer with
      | error error => exact submit_ends h hstage hanswer
      | ok _ =>
          simp only [hanswer] at ends ⊢
          exact pull_ends sound (submit_streaming hanswer) ends
  | streaming =>
      rw [next_streaming hstage] at ends ⊢
      exact pull_ends h hstage ends
  | done =>
      rw [next_done hstage]
      exact hstage

theorem next_sound (h : r.Sound) (state : ω) : (r.next state).request.Sound :=
  (next_shows h state).sound h

theorem takeRows_done (done : r.stage = .done) (n : Nat) (state : ω) :
    takeRows n r state = ⟨[], r, state, []⟩ := by
  cases n with
  | zero => rfl
  | succ n => simp only [takeRows, next_done done]

/-- Collecting asks for the same rows as taking them, up to an error, after which there is
nothing to ask for. -/
theorem collectUpTo_eq (h : r.Sound) (n : Nat) (state : ω) :
    ∃ verdict, Collected (takeRows n r state).answer verdict ∧
      collectUpTo n r state = { takeRows n r state with answer := verdict } := by
  induction n generalizing r state with
  | zero => exact ⟨_, .rows [], rfl⟩
  | succ n ih =>
      simp only [takeRows, collectUpTo]
      rcases hanswer : (r.next state).answer with _ | (error | row)
      · exact ⟨_, .rows [], rfl⟩
      · have done := next_ends h state (by simp [hanswer])
        simp only [takeRows_done done, List.append_nil]
        exact ⟨_, .error [] error, rfl⟩
      · obtain ⟨verdict, collected, hmore⟩ := ih (next_sound h state) (r.next state).state
        exact ⟨_, collected.cons row, by simp only [hmore]⟩

/-- To take one row is to ask for it. -/
theorem takeRows_one (r : Request κ σ ρ) (state : ω) :
    takeRows 1 r state = { r.next state with answer := (r.next state).answer.toList } := by
  simp only [takeRows]
  cases (r.next state).answer with
  | none => rfl
  | some item => simp only [List.append_nil, Option.toList_some]

end Steps

section Yields

variable [Transport κ ω σ] [RowSource σ]

/-- What a request comes to that is asked for one row after another until there is none: the
rows and errors, and what can be observed of all the calls. -/
inductive Yields : Request κ σ ρ → ω → Result κ ω σ ρ (List (Except ViewError ρ)) → Prop where
  | nothing {r : Request κ σ ρ} {state : ω} (none_left : (r.next state).answer = none) :
      Yields r state
        ⟨[], (r.next state).request, (r.next state).state, (r.next state).signals⟩
  | item {r : Request κ σ ρ} {state : ω} {item : Except ViewError ρ}
      {rest : Result κ ω σ ρ (List (Except ViewError ρ))}
      (given : (r.next state).answer = some item)
      (further : Yields (r.next state).request (r.next state).state rest) :
      Yields r state (rest.behind [item] (r.next state).signals)

namespace Yields

variable {r : Request κ σ ρ} {state : ω} {given : Result κ ω σ ρ (List (Except ViewError ρ))}

/-- So many calls, and one that answers that there is nothing more. -/
theorem nexts (yields : Yields r state given) :
    Request.nexts (given.answer.length + 1) r state =
      { given with answer := given.answer.map some ++ [none] } := by
  induction yields with
  | nothing none_left => simp [Request.nexts, none_left]
  | @item r state item rest found _ ih =>
      have hlength : (rest.behind [item] (r.next state).signals).answer.length + 1 =
          (rest.answer.length + 1) + 1 := rfl
      rw [hlength, Request.nexts]
      simp only [found, ih]
      rfl

/-- Enough polls of the stream of rows come to the same. -/
theorem takeRows (yields : Yields r state given) {polls : Nat}
    (enough : given.answer.length < polls) : Request.takeRows polls r state = given := by
  induction yields generalizing polls with
  | nothing none_left =>
      obtain ⟨polls, rfl⟩ := Nat.exists_eq_succ_of_ne_zero (Nat.ne_of_gt enough)
      simp only [Request.takeRows, none_left]
  | item found _ ih =>
      obtain ⟨polls, rfl⟩ := Nat.exists_eq_succ_of_ne_zero (Nat.ne_of_gt (Nat.zero_lt_of_lt enough))
      simp only [Request.takeRows, found, ih (Nat.lt_of_succ_lt_succ enough)]
      rfl

theorem ends (yields : Yields r state given) (h : r.Sound) : given.request.stage = .done := by
  induction yields with
  | nothing none_left => exact next_ends h _ (by simp [none_left])
  | @item r state item rest found _ ih => exact ih (next_sound h state)

/-- A request that is done yields nothing. -/
theorem of_done (done : r.stage = .done) : Yields r state ⟨[], r, state, []⟩ := by
  have hnext : r.next state = ⟨Option.none, r, state, []⟩ := next_done done
  have none_left : (r.next state).answer = none := by rw [hnext]
  simpa only [hnext] using Yields.nothing none_left

theorem eq_of_done (yields : Yields r state given) (done : r.stage = .done) :
    given = ⟨[], r, state, []⟩ := by
  have hnext : r.next state = ⟨Option.none, r, state, []⟩ := next_done done
  cases yields with
  | nothing none_left => simp only [hnext]
  | item found _ => simp [hnext] at found

/-- However many rows are taken first, what is left follows on them. -/
theorem taken (yields : Yields r state given) (h : r.Sound) (polls : Nat) :
    let taken := Request.takeRows polls r state
    ∃ rest, Yields taken.request taken.state rest ∧
      given = rest.behind taken.answer taken.signals := by
  induction polls generalizing r state given with
  | zero => exact ⟨given, yields, (given.behind_nil).symm⟩
  | succ polls ih =>
      cases yields with
      | nothing none_left =>
          have done := next_ends h state (by simp [none_left])
          simp only [Request.takeRows, none_left]
          exact ⟨_, of_done done, by simp [Result.behind]⟩
      | item found further =>
          obtain ⟨rest, yields, rfl⟩ := ih further (next_sound h state)
          simp only [Request.takeRows, found]
          exact ⟨rest, yields, by rw [Result.behind_behind]; rfl⟩

/-- A submission in front is the one that the first row would have made. -/
theorem submitted (yields : Yields r state given) (accepted : (r.submit state).answer = .ok ()) :
    let sent := r.submit state
    ∃ rest, Yields sent.request sent.state rest ∧ given = rest.behind [] sent.signals := by
  have unsubmitted : r.stage = .notStarted := by
    by_cases unsubmitted : r.stage = .notStarted
    · exact unsubmitted
    · rw [submit_refused unsubmitted] at accepted
      cases accepted
  have live : r.stage.canPull := Stage.canPull_iff.mpr (by simp [unsubmitted])
  have hready : r.ensureSubmitted state = r.submit state := by
    simp [ensureSubmitted, unsubmitted, Stage.canSubmit]
  have hnext := next_of_ensureSubmitted live (hready ▸ accepted)
  rw [hready] at hnext
  cases yields with
  | nothing none_left =>
      simp only [hnext] at none_left ⊢
      exact ⟨_, .nothing none_left, rfl⟩
  | item found further =>
      simp only [hnext] at found further ⊢
      exact ⟨_, .item found further, by rw [Result.behind_behind]; rfl⟩

/-- A call that takes some rows leaves the others. -/
theorem used (yields : Yields r state given) (h : r.Sound) {u : Use} (takes : u.takes) :
    let used := r.use u state
    ∃ rest, Yields used.request used.state rest ∧
      given = rest.behind used.answer.items used.signals := by
  cases u with
  | submit => cases takes
  | execute pulls => cases takes
  | next =>
      obtain ⟨rest, further, rfl⟩ := yields.taken h 1
      rw [takeRows_one] at further ⊢
      refine ⟨rest, further, ?_⟩
      simp only [use]
      cases (r.next state).answer <;> rfl
  | rows polls =>
      by_cases live : r.stage.canPull
      · obtain ⟨rest, further, rfl⟩ := yields.taken h polls
        simp only [use, rowsUpTo, if_pos live]
        exact ⟨rest, further, rfl⟩
      · simp only [use, rowsUpTo, if_neg live]
        exact ⟨given, yields, rfl⟩

theorem run (yields : Yields r state given) (h : r.Sound) {uses : List Use}
    (takes : ∀ u ∈ uses, u.takes) :
    let before := Request.run (uses.map .call) r state
    ∃ rest, Yields before.request before.state rest ∧
      given = rest.behind (before.answer.flatMap Answer.items) before.signals := by
  induction uses generalizing r state given with
  | nil => exact ⟨given, yields, (given.behind_nil).symm⟩
  | cons u uses ih =>
      obtain ⟨rest, further, rfl⟩ := yields.used h (takes u List.mem_cons_self)
      obtain ⟨last, ends, rfl⟩ := ih further ((use_shows h u state).sound h)
        fun u hu => takes u (List.mem_cons_of_mem _ hu)
      refine ⟨last, ends, ?_⟩
      rw [Result.behind_behind]
      rfl

/-- Rows that are taken up to the end of the request are all that it yields. -/
theorem of_takeRows (h : r.Sound) {polls : Nat}
    (done : (Request.takeRows polls r state).request.stage = .done) :
    Yields r state (Request.takeRows polls r state) := by
  induction polls generalizing r state with
  | zero => exact of_done done
  | succ polls ih =>
      simp only [Request.takeRows] at done ⊢
      cases hanswer : (r.next state).answer with
      | none => exact .nothing hanswer
      | some item =>
          simp only [hanswer] at done
          exact .item hanswer (ih (next_sound h state) done)

theorem unique {other : Result κ ω σ ρ (List (Except ViewError ρ))}
    (yields : Yields r state given) (also : Yields r state other) : given = other := by
  have enough := Nat.lt_succ_of_le (Nat.le_max_left given.answer.length other.answer.length)
  have enough' := Nat.lt_succ_of_le (Nat.le_max_right given.answer.length other.answer.length)
  rw [← yields.takeRows enough, also.takeRows enough']

end Yields

/-- A request that is taken to its end in any of the three ways comes to this result. -/
structure Consumed (r : Request κ σ ρ) (state : ω)
    (given : Result κ ω σ ρ (List (Except ViewError ρ))) : Prop where
  byNext : nexts (given.answer.length + 1) r state =
    { given with answer := given.answer.map some ++ [none] }
  byRows : ∀ polls, given.answer.length < polls →
    r.rowsUpTo polls state = { given with answer := .ok given.answer }
  byExecute : ∃ verdict, Collected given.answer verdict ∧ ∀ pulls, given.answer.length < pulls →
    r.executeUpTo pulls state = { given with answer := verdict }
  ends : given.request.stage = .done

theorem Yields.consumed {r : Request κ σ ρ} {state : ω}
    {given : Result κ ω σ ρ (List (Except ViewError ρ))} (yields : Yields r state given)
    (h : r.Sound) (live : r.stage ≠ .done) : Consumed r state given := by
  have hpull : r.stage.canPull := Stage.canPull_iff.mpr live
  obtain ⟨verdict, collected, -⟩ := collectUpTo_eq h (given.answer.length + 1) state
  rw [yields.takeRows (Nat.lt_succ_self _)] at collected
  refine ⟨yields.nexts, fun polls enough => ?_, ⟨verdict, collected, fun pulls enough => ?_⟩,
    yields.ends h⟩
  · simp only [rowsUpTo, if_pos hpull, yields.takeRows enough]
  · obtain ⟨other, also, hcollect⟩ := collectUpTo_eq h pulls state
    rw [yields.takeRows enough] at also hcollect
    rw [executeUpTo, if_pos hpull, hcollect, ← also.mapM_id, ← collected.mapM_id]

end Yields

section Finite

variable [Transport κ ω σ] [FiniteSource σ] {r : Request κ σ ρ}

/-- A streaming request that is asked as often as its source may have rows comes to its end. -/
theorem takeRows_ends (h : r.Sound) (streaming : r.stage = .streaming) {polls : Nat}
    (enough : r.pullsLeft ≤ polls) (state : ω) :
    (takeRows polls r state).request.stage = .done := by
  induction polls generalizing r with
  | zero =>
      obtain ⟨n, hn⟩ := r.pullsLeft_pos
      omega
  | succ polls ih =>
      have sound := next_sound h state
      have hcase := pull_case h streaming
      rw [next_streaming streaming] at sound
      simp only [takeRows, next_streaming streaming]
      generalize r.pull = result at hcase sound ⊢
      cases hcase with
      | @row source after payload row held answered decoded =>
          have fewer := FiniteSource.remaining_next answered
          refine ih sound streaming ?_
          simp only [pullsLeft, held] at enough ⊢
          omega
      | failed held answered ending =>
          have done : (r.closed none).stage = .done := rfl
          simp only [takeRows_done done]
          exact done
      | finished held answered ending => rfl

/-- Making a request ready for a pull keeps it sound, also when that is refused. -/
theorem ensureSubmitted_sound (h : r.Sound) (state : ω) :
    (r.ensureSubmitted state).request.Sound := by
  unfold ensureSubmitted
  split
  · exact (submit_shows h state).sound h
  · exact h

theorem rejected_ends {error : ViewError} (h : r.Sound) (live : r.stage.canPull) {state : ω}
    (rejected : (r.ensureSubmitted state).answer = .error error) :
    (r.ensureSubmitted state).request.stage = .done := by
  have hnext := next_of_ensureSubmitted_error live rejected
  have done := next_ends h state (by simp [hnext])
  simpa only [hnext] using done

theorem rows_ends (h : r.Sound) (live : r.stage.canPull) (state : ω) :
    (r.rows none state).request.stage = .done := by
  simp only [rows, drain, if_pos live]
  cases hready : (r.ensureSubmitted state).answer with
  | error error => exact rejected_ends h live hready
  | ok _ =>
      exact takeRows_ends (ensureSubmitted_sound h state) (ensureSubmitted_streaming live hready)
        (Nat.le_refl _) _

theorem execute_ends (h : r.Sound) (live : r.stage.canPull) (state : ω) :
    (r.execute state).request.stage = .done := by
  have sound := ensureSubmitted_sound h state
  simp only [execute, if_pos live]
  cases hready : (r.ensureSubmitted state).answer with
  | error error => exact rejected_ends h live hready
  | ok _ =>
      obtain ⟨verdict, -, hcollect⟩ := collectUpTo_eq sound
        (r.ensureSubmitted state).request.pullsLeft (r.ensureSubmitted state).state
      simp only [hcollect]
      exact takeRows_ends sound (ensureSubmitted_streaming live hready) (Nat.le_refl _) _

/-- Without a bound on the rows, a source that cannot yield rows forever is drained: there is
something that the request comes to, and both ways of draining come to it. -/
theorem drained (h : r.Sound) (live : r.stage ≠ .done) (state : ω) :
    ∃ given verdict, Yields r state given ∧ Collected given.answer verdict ∧
      r.rows none state = { given with answer := .ok given.answer } ∧
      r.execute state = { given with answer := verdict } := by
  have hpull : r.stage.canPull := Stage.canPull_iff.mpr live
  obtain ⟨polls, hrows⟩ := r.rows_eq_rowsUpTo none state
  have rowsEnd := rows_ends h hpull state
  simp only [rowsUpTo, if_pos hpull] at hrows
  rw [hrows] at rowsEnd ⊢
  have yields := Yields.of_takeRows h rowsEnd
  obtain ⟨pulls, hexecute⟩ := r.execute_eq_executeUpTo state
  have executeEnds := execute_ends h hpull state
  obtain ⟨verdict, collected, hcollect⟩ := collectUpTo_eq h pulls state
  rw [executeUpTo, if_pos hpull, hcollect] at hexecute
  rw [hexecute] at executeEnds ⊢
  have same := yields.unique (.of_takeRows h executeEnds)
  rw [same]
  exact ⟨_, verdict, .of_takeRows h executeEnds, collected, rfl, rfl⟩

end Finite

/-- The ways of consuming a stream agree, from every state that a request reaches and in which
it is not done. If asking for one row after another comes to an end, then polling the stream of
rows and collecting all rows come to the same rows or to the error behind them, show the same
and leave the same. So does any of them after some rows were taken, in whatever way and also
after a submission of its own: nothing is lost, repeated or reordered in between. With a source
that cannot yield rows forever, there is always such an end. -/
theorem consumption_agrees [Transport κ ω σ] [source : RowSource σ] [RowType ρ]
    (origin : Origin κ σ) (query : EncodedQuery) (events : List (Event ω)) (start : ω) :
    let reached := run events (origin.request query : Request κ σ ρ) start
    let r := reached.request
    let state := reached.state
    r.stage ≠ .done →
      (∀ given, Yields r state given → Consumed r state given ∧
        ∀ first uses : List Use,
          (first = [] ∨ first = [.submit] ∧ (r.submit state).answer = .ok ()) →
          (∀ u ∈ uses, u.takes) →
          let before := run ((first ++ uses).map .call) r state
          ∃ rest, given = rest.behind (before.answer.flatMap Answer.items) before.signals ∧
            if before.request.stage = .done then rest = ⟨[], before.request, before.state, []⟩
            else Consumed before.request before.state rest) ∧
      ∀ finite : FiniteSource σ, finite.toRowSource = source →
        ∃ given verdict, Consumed r state given ∧ Collected given.answer verdict ∧
          r.rows none state = { given with answer := .ok given.answer } ∧
          r.execute state = { given with answer := verdict } := by
  intro reached r state live
  have h : r.Sound := (run_shows (origin.sound query) events start).sound (origin.sound query)
  refine ⟨fun given yields => ⟨yields.consumed h live, ?_⟩, ?_⟩
  · intro first uses ready takes before
    obtain ⟨rest, further, split⟩ : ∃ rest, Yields before.request before.state rest ∧
        given = rest.behind (before.answer.flatMap Answer.items) before.signals := by
      rcases ready with rfl | ⟨rfl, accepted⟩
      · exact yields.run h takes
      · obtain ⟨middle, further, rfl⟩ := yields.submitted accepted
        obtain ⟨rest, ends, rfl⟩ := further.run ((submit_shows h state).sound h) takes
        exact ⟨rest, ends, by rw [Result.behind_behind]; rfl⟩
    have sound : before.request.Sound := (run_shows h _ state).sound h
    refine ⟨rest, split, ?_⟩
    split
    · next done => exact further.eq_of_done done
    · next going => exact further.consumed sound going
  · rintro finite rfl
    obtain ⟨given, verdict, yields, collected, hrows, hexecute⟩ := drained h live state
    exact ⟨given, verdict, yields.consumed h live, collected, hrows, hexecute⟩

/-- One row by a stream that is dropped, then the others: the row, and the error that ends the
stream. -/
theorem consumption_agrees_lostSource :
    let r : Request Route ScriptedSource Json.Value := .ofSource lostSource .empty
    let before := run [.call (.rows 1)] r {}
    ∃ given rest row, Consumed r {} given ∧ Consumed before.request before.state rest ∧
      given.answer = [.ok row, .error (.internal "lost")] ∧
      before.answer.flatMap Answer.items = [.ok row] ∧
      rest.answer = [.error (.internal "lost")] := by
  intro r before
  obtain ⟨given, yields, row, answer⟩ : ∃ given, Yields r {} given ∧
      ∃ row, given.answer = [.ok row, .error (.internal "lost")] :=
    ⟨_, .item rfl (.item rfl (.nothing rfl)), _, rfl⟩
  obtain ⟨consumed, split⟩ :=
    (consumption_agrees (ρ := Json.Value) (.source lostSource) .empty [] ({} : Store) nofun).1
      given yields
  obtain ⟨rest, hrest, further⟩ := split [] [.rows 1] (.inl rfl) (by simp [Use.takes])
  obtain ⟨item, taken⟩ : ∃ item, before.answer.flatMap Answer.items = [item] := ⟨_, rfl⟩
  have whole : [item] ++ rest.answer = [.ok row, .error (.internal "lost")] := by
    rw [← answer, hrest, ← taken]
    rfl
  obtain ⟨rfl, hlast⟩ := List.cons.inj whole
  exact ⟨given, rest, row, consumed, further, answer, taken, hlast⟩

end DocViews.Request
