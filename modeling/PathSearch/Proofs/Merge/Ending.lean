import PathSearch.Proofs.Merge.Progress

namespace PathSearch.Merge

/-! How a stream that nobody closes comes to its end: after every item of every scan, or with a failure. -/

variable {α ε : Type}

/-- A trace in which the consumer has not left yet. -/
structure Trace.Active (trace : Trace α ε) : Prop where
  unclosed : ¬ trace.Closed
  failures : trace.failures = []
  stopped : trace.state.stopped = false
  cancelled : trace.state.cancelled = false
  pending : 0 < trace.state.remaining ∨
    trace.state.consumer = .fresh ∧ trace.state.tasks = []
  balanced : ∃ received, trace.state.Balanced received

/-- Why the consumer has left: it closed the stream, it was given a failure, or nothing was left. -/
def Trace.Ended (scripts : List (Script α ε)) (trace : Trace α ε) : Prop :=
  trace.Closed ∨ (∃ error, trace.failures = [error]) ∨
    trace.failures = [] ∧ trace.state.Complete scripts

variable {limits : Limits} {scripts : List (Script α ε)} {trace before after : Trace α ε}

theorem Trace.active_initial (scripts : List (Script α ε)) : (Trace.initial scripts).Active where
  unclosed := by simp [Trace.Closed, Trace.initial]
  failures := rfl
  stopped := rfl
  cancelled := rfl
  pending := by
    cases scripts with
    | nil => exact .inr ⟨rfl, rfl⟩
    | cons script rest => exact .inl (by simp [Trace.initial, State.ofScripts])
  balanced := ⟨[], State.balanced_ofScripts scripts⟩

/-- What an active trace comes to when the consumer receives a message. -/
theorem Trace.Active.receive (active : before.Active) (sound : before.state.Sound scripts)
    {state : State α ε} {receipt : Receipt α ε} (receives : before.state.Receives state receipt) :
    let after : Trace α ε := ⟨before.events ++ [.receive], before.receipts ++ [receipt], state⟩
    (state.consumer = .reading ∧ after.Active) ∨ (state.consumer = .leaving ∧ after.Ended scripts) := by
  obtain ⟨received, balanced⟩ := active.balanced
  have unclosed : Event.close ∉ before.events ++ [.receive] := by
    simpa [Trace.Closed] using active.unclosed
  have failures : ∀ receipt : Receipt α ε, receipt.error? = none →
      (before.receipts ++ [receipt]).filterMap Receipt.error? = [] := by
    intro receipt none
    have earlier := active.failures
    simp only [Trace.failures] at earlier
    simp [List.filterMap_append, earlier, none]
  have waiting : before.state.consumer = .reading → 0 < before.state.remaining := by
    intro reading
    rcases active.pending with pending | ⟨fresh, -⟩
    · exact pending
    · simp [reading] at fresh
  cases receives with
  | @repeated value rest reading queue known =>
      have next := balanced.take queue before.state.seen before.state.remaining
        (fun _ member => member) (by rintro _ ⟨⟩; exact known) rfl (by simp) before.state.consumer
      exact .inl ⟨reading, unclosed, failures _ rfl, active.stopped, active.cancelled,
        .inl (waiting reading), _, next⟩
  | @fresh value rest reading queue unknown =>
      have next := balanced.take queue (before.state.seen ++ [value]) before.state.remaining
        (fun _ member => List.mem_append_left _ member) (by rintro _ ⟨⟩; simp) rfl (by simp)
        before.state.consumer
      exact .inl ⟨reading, unclosed, failures _ rfl, active.stopped, active.cancelled,
        .inl (waiting reading), _, next⟩
  | @failed error rest reading queue =>
      refine .inr ⟨rfl, .inr (.inl ⟨error, ?_⟩)⟩
      have earlier := active.failures
      simp only [Trace.failures] at earlier
      simp [Trace.failures, List.filterMap_append, Receipt.error?, earlier]
  | @last rest reading queue few =>
      have one : before.state.remaining = 1 := by
        have positive := waiting reading
        omega
      have next := balanced.take queue before.state.seen 0 (fun _ member => member)
        (by simp) (by rw [one]; rfl) (by simp) .leaving
      have kept : State.Sound scripts { before.state with
          queue := rest, remaining := 0, consumer := .leaving } := { sound.take queue with }
      exact .inr ⟨rfl, .inr (.inr ⟨failures _ rfl, next.complete kept rfl⟩)⟩
  | @done rest reading queue many =>
      have next := balanced.take queue before.state.seen (before.state.remaining - 1)
        (fun _ member => member) (by simp)
        (by simp only [List.countP_singleton, Message.isFinal, if_true]; omega) (by simp)
        before.state.consumer
      exact .inl ⟨reading, unclosed, failures _ rfl, active.stopped, active.cancelled,
        .inl (by simp only; omega), _, next⟩

/-- What an active trace comes to in a step in which the consumer receives nothing. -/
theorem Trace.Active.move (active : before.Active) (sound : before.state.Sound scripts)
    (here : before.state.consumer = .fresh ∨ before.state.consumer = .reading) {event : Event}
    {state : State α ε} (silent : event ≠ .receive)
    (moves : before.state.Moves limits event state) :
    let after : Trace α ε := ⟨before.events ++ [event], before.receipts, state⟩
    ((state.consumer = .fresh ∨ state.consumer = .reading) ∧ after.Active) ∨
      ((state.consumer = .leaving ∨ state.consumer = .gone) ∧ after.Ended scripts) := by
  have unclosed : event ≠ .close → Event.close ∉ before.events ++ [event] := by
    intro other
    simpa [Trace.Closed, Ne.symm other] using active.unclosed
  have closed : Event.close ∈ before.events ++ [.close] := by simp
  have waiting : before.state.consumer ≠ .fresh ∨ before.state.tasks ≠ [] →
      0 < before.state.remaining := by
    intro either
    rcases active.pending with pending | ⟨fresh, empty⟩
    · exact pending
    · rcases either with begun | some
      · exact absurd fresh begun
      · exact absurd empty some
  obtain ⟨received, balanced⟩ := active.balanced
  cases moves with
  | begin fresh =>
      by_cases none : before.state.tasks = []
      · refine .inr ⟨.inr (by simp [none]), .inr (.inr ⟨active.failures, ?_, ?_⟩)⟩
        · simp [none]
        · have empty := sound.scripts_eq
          simp only [none, List.map_nil] at empty
          simp [← empty]
      · exact .inl ⟨.inr (by simp [none]), unclosed (by simp), active.failures, active.stopped,
          active.cancelled, .inl (waiting (.inr none)), received, { balanced with }⟩
  | start begun _ _ found starts =>
      exact .inl ⟨here, unclosed (by simp), active.failures, active.stopped, active.cancelled,
        .inl (waiting (.inl begun)), received, balanced.start found starts⟩
  | work found works room =>
      have some : before.state.tasks ≠ [] := by
        intro empty
        simp [empty] at found
      exact .inl ⟨here, unclosed (by simp), active.failures, active.stopped, active.cancelled,
        .inl (waiting (.inr some)), received, balanced.work sound found works⟩
  | quit stopped => simp [active.stopped] at stopped
  | receive => exact absurd rfl silent
  | closeFresh => exact .inr ⟨.inr rfl, .inl closed⟩
  | closeReading => exact .inr ⟨.inl rfl, .inl closed⟩
  | stop leaving => simp [leaving] at here
  | cancel leaving => simp [leaving] at here
  | leave leaving => simp [leaving] at here

theorem State.Moves.consumer_of_left {state next : State α ε} {event : Event}
    (moves : state.Moves limits event next)
    (left : state.consumer = .leaving ∨ state.consumer = .gone) :
    next.consumer = .leaving ∨ next.consumer = .gone := by
  cases moves with
  | receive receives => simp [receives.consumer_eq] at left
  | begin fresh => simp [fresh] at left
  | start => exact left
  | work => exact left
  | quit => exact left
  | closeFresh => exact .inr rfl
  | closeReading => exact .inl rfl
  | stop => exact left
  | cancel => exact left
  | leave => exact .inr rfl

/-- A trace that has ended stays so, for the same reason. -/
theorem Trace.Ended.move (ended : before.Ended scripts)
    (left : before.state.consumer = .leaving ∨ before.state.consumer = .gone) {event : Event}
    {state : State α ε} (moves : before.state.Moves limits event state) :
    Trace.Ended scripts ⟨before.events ++ [event], before.receipts, state⟩ := by
  rcases ended with shut | failed | ⟨failures, complete⟩
  · exact .inl (List.mem_append_left _ shut)
  · exact .inr (.inl failed)
  · exact .inr (.inr ⟨failures, complete.moves left moves⟩)

variable [DecidableEq α]

theorem Trace.Steps.closed_iff {event : Event} (steps : before.Steps limits event after) :
    after.Closed ↔ before.Closed ∨ event = .close := by
  simp [Trace.Closed, steps.events_eq, eq_comm]

/-- The invariant of all traces: the stream is still being read, or it has ended in one of three ways. -/
theorem Traced.active_or_ended (traced : Traced limits scripts trace) :
    ((trace.state.consumer = .fresh ∨ trace.state.consumer = .reading) ∧ trace.Active) ∨
      ((trace.state.consumer = .leaving ∨ trace.state.consumer = .gone) ∧ trace.Ended scripts) := by
  induction traced with
  | initial => exact .inl ⟨.inl rfl, Trace.active_initial scripts⟩
  | @step before after event traced steps ih =>
      have sound := traced.sound
      cases steps with
      | receive received =>
          have receives := State.receives_of_receive? received
          rcases ih with ⟨-, active⟩ | ⟨left, -⟩
          · rcases active.receive sound receives with ⟨consumer, active⟩ | ⟨consumer, ended⟩
            · exact .inl ⟨.inr consumer, active⟩
            · exact .inr ⟨.inl consumer, ended⟩
          · simp [receives.consumer_eq] at left
      | other silent taken =>
          have moves := State.moves_of_step? taken
          rcases ih with ⟨here, active⟩ | ⟨left, ended⟩
          · exact active.move sound here silent moves
          · exact .inr ⟨moves.consumer_of_left left, ended.move left moves⟩

theorem Traced.active_of_here (traced : Traced limits scripts trace)
    (here : trace.state.consumer = .fresh ∨ trace.state.consumer = .reading) : trace.Active := by
  rcases traced.active_or_ended with ⟨-, active⟩ | ⟨left, -⟩
  · exact active
  · rcases here with same | same <;> simp [same] at left

theorem Traced.ended_of_gone (traced : Traced limits scripts trace)
    (gone : trace.state.consumer = .gone) : trace.Ended scripts := by
  rcases traced.active_or_ended with ⟨here, -⟩ | ⟨-, ended⟩
  · simp [gone] at here
  · exact ended

theorem Traced.moving (traced : Traced limits scripts trace) (workers : 0 < limits.workers)
    (capacity : 0 < limits.capacity) (reading : trace.state.consumer = .reading) :
    trace.state.Moving limits := by
  have active := traced.active_of_here (.inr reading)
  obtain ⟨received, balanced⟩ := active.balanced
  refine balanced.moving workers capacity reading active.cancelled ?_
  rcases active.pending with pending | ⟨fresh, -⟩
  · exact pending
  · simp [reading] at fresh

/-- Until the consumer has gone, the merge can go on without being closed. -/
theorem Traced.exists_steps (traced : Traced limits scripts trace) (workers : 0 < limits.workers)
    (capacity : 0 < limits.capacity) (present : trace.state.consumer ≠ .gone) :
    ∃ event after, event ≠ .close ∧ trace.Steps limits event after ∧ after.state ≠ trace.state := by
  have possible : ∃ event state, event ≠ .close ∧
      trace.state.step? limits event = some state ∧ state ≠ trace.state := by
    cases consumer : trace.state.consumer with
    | fresh =>
        refine ⟨.begin, _, by simp, by simp only [State.step?, if_pos consumer]; rfl, ?_⟩
        intro same
        have differs := congrArg State.consumer same
        simp only [consumer] at differs
        split at differs <;> simp at differs
    | reading =>
        have moving := traced.moving workers capacity consumer
        obtain ⟨event, state, unclosed, taken, less⟩ := moving.exists_step consumer
        refine ⟨event, state, unclosed, taken, ?_⟩
        intro same
        simp [same] at less
    | leaving => exact State.exists_step_of_leaving limits consumer
    | gone => exact absurd consumer present
  obtain ⟨event, state, unclosed, taken, changed⟩ := possible
  obtain ⟨after, steps, same⟩ := Trace.exists_steps_of_step? taken
  exact ⟨event, after, unclosed, steps, by rwa [same]⟩

omit [DecidableEq α] in
theorem Inevitable.mono [DecidableEq α] {goal wider : Trace α ε → Prop}
    (implies : ∀ final, goal final → wider final) (inevitable : Inevitable limits goal trace) :
    Inevitable limits wider trace := by
  induction inevitable with
  | reached met => exact .reached (implies _ met)
  | ahead possible _ ih => exact .ahead possible ih

/-- A goal is inevitable where what holds on the way to it is kept by every step and leaves a step to
take. -/
theorem inevitable_of_kept {keeps goal : Trace α ε → Prop}
    (onward : ∀ trace, keeps trace → ¬ goal trace → ∃ event after, event ≠ .close ∧
      trace.Steps limits event after ∧ after.state ≠ trace.state)
    (kept : ∀ before event after, keeps before → ¬ goal before → event ≠ .close →
      before.Steps limits event after → keeps after) (held : keeps trace) :
    Inevitable limits (fun final => keeps final ∧ goal final) trace := by
  -- Every step lowers the rank of the state, so the induction is on it.
  induction bound : trace.state.rank using Nat.strongRecOn generalizing trace with
  | ind bound ih =>
      by_cases met : goal trace
      · exact .reached ⟨held, met⟩
      · refine .ahead (onward trace held met) ?_
        intro event after other steps changed
        have less := State.rank_lt steps.state_step? other changed
        exact ih _ (bound ▸ less) (kept trace event after held met other steps) rfl

/-- A stream that nobody closes comes to its end. -/
theorem Traced.inevitable_end (traced : Traced limits scripts trace) (workers : 0 < limits.workers)
    (capacity : 0 < limits.capacity) (unclosed : ¬ trace.Closed) :
    Inevitable limits (fun final => Traced limits scripts final ∧ ¬ final.Closed ∧
      final.state.consumer = .gone) trace := by
  have inevitable := @inevitable_of_kept α ε limits trace _
    (fun trace => Traced limits scripts trace ∧ ¬ trace.Closed)
    (fun trace => trace.state.consumer = .gone)
    (fun trace held present => held.1.exists_steps workers capacity present)
    (by
      rintro before event after ⟨traced, clear⟩ - other steps
      refine ⟨traced.step steps, ?_⟩
      rw [steps.closed_iff]
      simp [clear, other])
    ⟨traced, unclosed⟩
  exact inevitable.mono fun final met => ⟨met.1.1, met.1.2, met.2⟩

end PathSearch.Merge
