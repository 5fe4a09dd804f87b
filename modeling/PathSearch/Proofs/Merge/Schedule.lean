import PathSearch.Merge.Stream
import PathSearch.Proofs.Merge.Ending

namespace PathSearch.Merge

/-! The schedule that reads a stream to its end is one of the orders of steps: what it collects is what
the consumer is given in a trace that nobody closes. -/

variable {α ε : Type}

namespace Answer

def value? : Answer α ε → Option α
  | .value item => some item
  | _ => none

def error? : Answer α ε → Option ε
  | .failed error => some error
  | _ => none

end Answer

namespace State

variable {limits : Limits} {before after : State α ε}

theorem exists_of_range {next : State α ε} {count : Nat} {step : Nat → Option (State α ε)}
    (found : (List.range count).findSome? step = some next) : ∃ index, step index = some next := by
  obtain ⟨index, -, taken⟩ := List.exists_of_findSome?_eq_some found
  exact ⟨index, taken⟩

theorem eq_none_of_range {count : Nat} {step : Nat → Option (State α ε)}
    (absent : (List.range count).findSome? step = none)
    (beyond : ∀ index, count ≤ index → step index = none) (index : Nat) : step index = none := by
  rcases Nat.lt_or_ge index count with inside | outside
  · exact List.findSome?_eq_none_iff.mp absent index (List.mem_range.mpr inside)
  · exact beyond index outside

theorem work?_eq_none_of_workFirst? (absent : before.workFirst? limits = none) (index : Nat) :
    before.work? limits index = none := by
  refine eq_none_of_range absent ?_ index
  intro index outside
  simp only [work?, List.getElem?_eq_none outside]

theorem quit?_eq_none_of_quitFirst? (absent : before.quitFirst? = none) (index : Nat) :
    before.quit? index = none := by
  refine eq_none_of_range absent ?_ index
  intro index outside
  simp [quit?, List.getElem?_eq_none outside]

theorem start?_eq_none_of_startFirst? (absent : before.startFirst? limits = none) (index : Nat) :
    before.start? limits index = none := by
  refine eq_none_of_range absent ?_ index
  intro index outside
  simp [start?, List.getElem?_eq_none outside]

/-- Draining is a row of steps of workers. -/
theorem drain_keeps {holds : State α ε → Prop}
    (quits : ∀ {state next : State α ε} {index : Nat}, holds state →
      state.quit? index = some next → holds next)
    (works : ∀ {state next : State α ε} {index : Nat}, holds state →
      state.work? limits index = some next → holds next)
    {state : State α ε} (held : holds state) : holds (state.drain limits) := by
  fun_induction drain limits state with
  | case1 state next found ih =>
      obtain ⟨index, taken⟩ := exists_of_range found
      exact ih (quits held taken)
  | case2 state absent next found ih =>
      obtain ⟨index, taken⟩ := exists_of_range found
      exact ih (works held taken)
  | case3 state => exact held

/-- Workers that go on or give up leave the consumer and the flags as they are. -/
theorem drain_frame (limits : Limits) (state : State α ε) :
    (state.drain limits).consumer = state.consumer ∧
      (state.drain limits).stopped = state.stopped ∧
      (state.drain limits).cancelled = state.cancelled := by
  let same (next : State α ε) : Prop :=
    next.consumer = state.consumer ∧ next.stopped = state.stopped ∧ next.cancelled = state.cancelled
  have quits : ∀ {before next : State α ε} {index : Nat}, same before →
      before.quit? index = some next → same next := by
    intro before next index held taken
    have moves : before.Moves limits (.quit index) next := moves_of_quit? taken
    cases moves with
    | quit => exact held
  have works : ∀ {before next : State α ε} {index : Nat}, same before →
      before.work? limits index = some next → same next := by
    intro before next index held taken
    cases moves_of_work? taken with
    | work => exact held
  exact drain_keeps quits works (show same state from ⟨rfl, rfl, rfl⟩)

/-- Once the merge is stopped, its workers come to their end. -/
theorem running_drain (limits : Limits) {state : State α ε} (stopped : state.stopped = true) :
    (state.drain limits).running = 0 := by
  fun_induction drain limits state with
  | case1 state next found ih =>
      obtain ⟨index, taken⟩ := exists_of_range found
      have moves : state.Moves limits (.quit index) next := moves_of_quit? taken
      cases moves with
      | quit => exact ih stopped
  | case2 state absent next found ih =>
      obtain ⟨index, taken⟩ := exists_of_range found
      cases moves_of_work? taken with
      | work => exact ih stopped
  | case3 state unquit unworked =>
      rcases Nat.eq_zero_or_pos state.running with idle | busy
      · exact idle
      · obtain ⟨index, task, found, running⟩ := exists_running (Nat.pos_iff_ne_zero.mp busy)
        rcases exists_work_or_quit_of_stopped limits found running stopped with
          ⟨after, taken⟩ | ⟨after, taken⟩
        · simp [work?_eq_none_of_workFirst? unworked index] at taken
        · simp [quit?_eq_none_of_quitFirst? unquit index] at taken

variable [DecidableEq α]

theorem gone_of_attempt_leave (limits : Limits) (leaving : before.consumer = .leaving)
    (cancelled : before.cancelled = true) (idle : before.running = 0) :
    (before.attempt limits .leave).consumer = .gone := by
  simp [attempt, step?, leaving, cancelled, idle]

theorem gone_of_leave (limits : Limits) (leaving : before.consumer = .leaving) :
    (before.leave limits).consumer = .gone := by
  have stop : before.attempt limits .stop = { before with stopped := true } := by
    simp [attempt, step?, leaving]
  have cancel : (before.attempt limits .stop).attempt limits .cancel =
      { before with stopped := true, cancelled := true } := by
    rw [stop]
    simp [attempt, step?, leaving]
  simp only [leave, cancel]
  obtain ⟨consumer, -, cancelled⟩ :=
    drain_frame limits { before with stopped := true, cancelled := true }
  exact gone_of_attempt_leave limits (consumer.trans leaving) cancelled
    (running_drain limits rfl)

end State

variable [DecidableEq α] {limits : Limits} {scripts : List (Script α ε)}

/-- Some order of steps, none of them closing the stream, leads to the state with these receipts. -/
def Arrives (limits : Limits) (scripts : List (Script α ε)) (receipts : List (Receipt α ε))
    (state : State α ε) : Prop :=
  ∃ trace, Traced limits scripts trace ∧ ¬ trace.Closed ∧ trace.receipts = receipts ∧
    trace.state = state

namespace Arrives

variable {receipts : List (Receipt α ε)} {before after : State α ε}

theorem initial (limits : Limits) (scripts : List (Script α ε)) :
    Arrives limits scripts [] (.ofScripts scripts) :=
  ⟨.initial scripts, .initial, by simp [Trace.Closed, Trace.initial], rfl, rfl⟩

theorem silent (arrives : Arrives limits scripts receipts before) {event : Event}
    (silent : event ≠ .receive) (unclosed : event ≠ .close)
    (taken : before.step? limits event = some after) : Arrives limits scripts receipts after := by
  obtain ⟨trace, traced, clear, rfl, rfl⟩ := arrives
  have steps : trace.Steps limits event _ := .other silent taken
  refine ⟨_, traced.step steps, ?_, rfl, rfl⟩
  simpa [steps.closed_iff, unclosed] using clear

theorem receive (arrives : Arrives limits scripts receipts before) {receipt : Receipt α ε}
    (taken : before.receive? = some (after, receipt)) :
    Arrives limits scripts (receipts ++ [receipt]) after := by
  obtain ⟨trace, traced, clear, rfl, rfl⟩ := arrives
  have steps : trace.Steps limits .receive _ := .receive taken
  refine ⟨_, traced.step steps, ?_, rfl, rfl⟩
  simpa [steps.closed_iff] using clear

theorem attempt (arrives : Arrives limits scripts receipts before) {event : Event}
    (silent : event ≠ .receive) (unclosed : event ≠ .close) :
    Arrives limits scripts receipts (before.attempt limits event) := by
  cases taken : before.step? limits event with
  | none => simpa [State.attempt, taken] using arrives
  | some after => simpa [State.attempt, taken] using arrives.silent silent unclosed taken

theorem drain (arrives : Arrives limits scripts receipts before) :
    Arrives limits scripts receipts (before.drain limits) := by
  refine State.drain_keeps ?_ ?_ arrives
  · intro state next index arrived taken
    exact arrived.silent (by simp) (by simp)
      (show state.step? limits (.quit index) = some next from taken)
  · intro state next index arrived taken
    exact arrived.silent (by simp) (by simp)
      (show state.step? limits (.work index) = some next from taken)

theorem leave (arrives : Arrives limits scripts receipts before)
    (leaving : before.consumer = .leaving) :
    Arrives limits scripts receipts (before.leave limits) ∧
      (before.leave limits).consumer = .gone := by
  constructor
  · exact (((arrives.attempt (by simp) (by simp)).attempt (by simp) (by simp)).drain).attempt
      (by simp) (by simp)
  · exact State.gone_of_leave limits leaving

/-- While the stream is read, something is left to do. -/
theorem exists_next (arrives : Arrives limits scripts receipts before) (workers : 0 < limits.workers)
    (capacity : 0 < limits.capacity) (reading : before.consumer = .reading)
    (unworked : before.workFirst? limits = none) (unreceived : before.receive? = none) :
    before.startFirst? limits ≠ none := by
  obtain ⟨trace, traced, clear, rfl, rfl⟩ := arrives
  have active := traced.active_of_here (.inr reading)
  have moving := traced.moving workers capacity reading
  obtain ⟨event, after, unclosed, taken, -⟩ := moving.exists_step reading
  intro unstarted
  cases event with
  | work index => simp [State.step?, State.work?_eq_none_of_workFirst? unworked index] at taken
  | start index => simp [State.step?, State.start?_eq_none_of_startFirst? unstarted index] at taken
  | receive => simp [State.step?, unreceived] at taken
  | quit index => simp [State.step?, State.quit?, active.stopped] at taken
  | close => exact unclosed rfl
  | begin => simp [State.step?, reading] at taken
  | stop => simp [State.step?, reading] at taken
  | cancel => simp [State.step?, reading] at taken
  | leave => simp [State.step?, reading] at taken

/-- What reading on until there is an answer gives the consumer. -/
theorem read (arrives : Arrives limits scripts receipts before) (workers : 0 < limits.workers)
    (capacity : 0 < limits.capacity) (reading : before.consumer = .reading)
    {answer : Answer α ε} (answered : before.read limits = (answer, after)) :
    ∃ more, Arrives limits scripts (receipts ++ more) after ∧
      more.filterMap Receipt.value? = answer.value?.toList ∧
      more.filterMap Receipt.error? = answer.error?.toList ∧
      after.consumer = if answer.value?.isSome then .reading else .gone := by
  fun_induction State.read limits before generalizing receipts with
  | case1 before next found ih =>
      obtain ⟨index, taken⟩ := State.exists_of_range found
      refine ih (arrives.silent (by simp) (by simp)
        (show before.step? limits (.work index) = some next from taken)) ?_ answered
      cases State.moves_of_work? taken with
      | work => exact reading
  | case2 before unworked next value received =>
      cases answered
      refine ⟨[.fresh value], arrives.receive received, rfl, rfl, ?_⟩
      cases State.receives_of_receive? received with
      | fresh => exact reading
  | case3 before unworked next received ih =>
      have still : next.consumer = .reading := by
        cases State.receives_of_receive? received <;> exact reading
      obtain ⟨more, reached, values, errors, consumer⟩ :=
        ih (arrives.receive received) still answered
      exact ⟨.silent :: more, by simpa using reached, by simpa [List.filterMap_cons, Receipt.value?] using values,
        by simpa [List.filterMap_cons, Receipt.error?] using errors, consumer⟩
  | case4 before unworked next received =>
      cases answered
      have leaving : next.consumer = .leaving := by
        cases State.receives_of_receive? received
        rfl
      obtain ⟨reached, gone⟩ := (arrives.receive received).leave leaving
      exact ⟨[.finished], reached, rfl, rfl, gone⟩
  | case5 before unworked next error received =>
      cases answered
      have leaving : next.consumer = .leaving := by
        cases State.receives_of_receive? received
        rfl
      obtain ⟨reached, gone⟩ := (arrives.receive received).leave leaving
      exact ⟨[.failed error], reached, rfl, rfl, gone⟩
  | case6 before unworked unreceived next found ih =>
      obtain ⟨index, taken⟩ := State.exists_of_range found
      refine ih (arrives.silent (by simp) (by simp)
        (show before.step? limits (.start index) = some next from taken)) ?_ answered
      cases State.moves_of_start? taken with
      | start => exact reading
  | case7 before unworked unreceived unstarted =>
      exact absurd unstarted (arrives.exists_next workers capacity reading unworked unreceived)

theorem next (arrives : Arrives limits scripts receipts before) (workers : 0 < limits.workers)
    (capacity : 0 < limits.capacity)
    (here : before.consumer = .fresh ∨ before.consumer = .reading)
    {answer : Answer α ε} (answered : before.next limits = (answer, after)) :
    ∃ more, Arrives limits scripts (receipts ++ more) after ∧
      more.filterMap Receipt.value? = answer.value?.toList ∧
      more.filterMap Receipt.error? = answer.error?.toList ∧
      after.consumer = if answer.value?.isSome then .reading else .gone := by
  rcases here with fresh | reading
  · have begun : Arrives limits scripts receipts (before.attempt limits .begin) :=
      arrives.attempt (by simp) (by simp)
    have consumer : (before.attempt limits .begin).consumer =
        if before.tasks.isEmpty then .gone else .reading := by
      simp [State.attempt, State.step?, fresh]
    simp only [State.next, fresh] at answered
    split at answered
    · rename_i reading
      exact begun.read workers capacity reading answered
    · rename_i other
      cases answered
      refine ⟨[], by simpa using begun, rfl, rfl, ?_⟩
      rw [consumer] at other ⊢
      cases empty : before.tasks.isEmpty with
      | true => rfl
      | false => simp [empty] at other
  · simp only [State.next, reading] at answered
    exact arrives.read workers capacity reading answered

/-- What collecting a whole stream gives is what the consumer is given in some order of steps. -/
theorem collect (arrives : Arrives limits scripts receipts before) (workers : 0 < limits.workers)
    (capacity : 0 < limits.capacity)
    (here : before.consumer = .fresh ∨ before.consumer = .reading)
    {values : List α} {failure : Option ε}
    (collected : before.collect limits = (values, failure, after)) :
    ∃ more, Arrives limits scripts (receipts ++ more) after ∧
      more.filterMap Receipt.value? = values ∧
      more.filterMap Receipt.error? = failure.toList ∧ after.consumer = .gone := by
  fun_induction State.collect limits before generalizing receipts values failure after with
  | case1 before value next answered rest failed final inner ih =>
      cases collected
      obtain ⟨more, reached, given, failures, consumer⟩ :=
        arrives.next workers capacity here answered
      obtain ⟨later, ended, others, lastly, gone⟩ := ih reached (.inr consumer) inner
      refine ⟨more ++ later, by simpa using ended, ?_, ?_, gone⟩
      · rw [List.filterMap_append, given, others]
        rfl
      · rw [List.filterMap_append, failures, lastly]
        rfl
  | case2 before next answered =>
      cases collected
      exact arrives.next workers capacity here answered
  | case3 before error next answered =>
      cases collected
      exact arrives.next workers capacity here answered

end Arrives

/-- Collecting a stream from its beginning takes it through a trace that ends. -/
theorem exists_trace_of_collect (workers : 0 < limits.workers) (capacity : 0 < limits.capacity)
    {values : List α} {failure : Option ε} {final : State α ε}
    (collected : (State.ofScripts scripts).collect limits = (values, failure, final)) :
    ∃ trace, Traced limits scripts trace ∧ ¬ trace.Closed ∧ trace.state = final ∧
      final.consumer = .gone ∧ trace.yielded = values ∧ trace.failures = failure.toList := by
  obtain ⟨receipts, ⟨trace, traced, clear, given, rfl⟩, yielded, failures, gone⟩ :=
    (Arrives.initial limits scripts).collect workers capacity (.inl rfl) collected
  rw [List.nil_append] at given
  subst given
  exact ⟨trace, traced, clear, rfl, gone, yielded, failures⟩

end PathSearch.Merge
