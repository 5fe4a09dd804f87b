import PathSearch.Proofs.Merge.Balance

namespace PathSearch.Merge

/-!
The merge never sticks and never runs forever. Until the consumer has gone some step other than closing
changes the state, and every such step lowers `rank`.
-/

variable {α ε : Type} [DecidableEq α]

omit [DecidableEq α] in
theorem Task.started_of_isRunning {task : Task α ε} (running : task.phase.isRunning = true) :
    task.started = true := by
  obtain ⟨script, phase, pulls, closed⟩ := task
  cases phase with
  | waiting => cases running
  | _ => rfl

namespace State

variable {limits : Limits} {scripts : List (Script α ε)} {before after : State α ε}

omit [DecidableEq α] in
theorem exists_work_of_room {index : Nat} {task : Task α ε}
    (found : before.tasks[index]? = some task) (running : task.phase.isRunning = true)
    (room : before.queue.length < limits.capacity) :
    ∃ after, before.work? limits index = some after := by
  obtain ⟨script, phase, pulls, closed⟩ := task
  cases phase with
  | waiting => simp [Phase.isRunning] at running
  | «over» => simp [Phase.isRunning] at running
  | pulling rest =>
      cases rest with
      | nil => exact ⟨_, by simp only [work?, found]; rfl⟩
      | cons value rest => exact ⟨_, by simp only [work?, found]; rfl⟩
  | closing complete => exact ⟨_, by simp only [work?, found]; rfl⟩
  | offering value rest => exact ⟨_, by simp only [work?, found, if_pos room]; rfl⟩
  | reporting error called => exact ⟨_, by simp only [work?, found, if_pos room]; rfl⟩
  | concluding => exact ⟨_, by simp only [work?, found, if_pos room]; rfl⟩

omit [DecidableEq α] in
/-- Once the merge is stopped, no running worker is blocked. -/
theorem exists_work_or_quit_of_stopped (limits : Limits) {index : Nat} {task : Task α ε}
    (found : before.tasks[index]? = some task) (running : task.phase.isRunning = true)
    (stopped : before.stopped = true) :
    (∃ after, before.work? limits index = some after) ∨
      ∃ after, before.quit? index = some after := by
  obtain ⟨script, phase, pulls, closed⟩ := task
  cases phase with
  | waiting => simp [Phase.isRunning] at running
  | «over» => simp [Phase.isRunning] at running
  | pulling rest =>
      cases rest with
      | nil => exact .inl ⟨_, by simp only [work?, found]; rfl⟩
      | cons value rest => exact .inl ⟨_, by simp only [work?, found]; rfl⟩
  | closing complete => exact .inl ⟨_, by simp only [work?, found]; rfl⟩
  | offering value rest => exact .inr ⟨_, by simp only [quit?, if_pos stopped, found]; rfl⟩
  | reporting error called =>
      cases called <;> exact .inr ⟨_, by simp only [quit?, if_pos stopped, found]; rfl⟩
  | concluding => exact .inr ⟨_, by simp only [quit?, if_pos stopped, found]; rfl⟩

theorem exists_receive (reading : before.consumer = .reading) (queued : before.queue ≠ []) :
    ∃ result, before.receive? = some result := by
  obtain ⟨message, rest, queue⟩ := List.exists_cons_of_ne_nil queued
  cases message with
  | item value =>
      by_cases known : value ∈ before.seen
      · exact ⟨_, by simp only [receive?, if_pos reading, queue, if_pos known]; rfl⟩
      · exact ⟨_, by simp only [receive?, if_pos reading, queue, if_neg known]; rfl⟩
  | failed error => exact ⟨_, by simp only [receive?, if_pos reading, queue]; rfl⟩
  | done =>
      by_cases few : before.remaining ≤ 1
      · exact ⟨_, by simp only [receive?, if_pos reading, queue, if_pos few]; rfl⟩
      · exact ⟨_, by simp only [receive?, if_pos reading, queue, if_neg few]; rfl⟩

omit [DecidableEq α] in
theorem exists_start {index : Nat} {task : Task α ε} (begun : before.consumer ≠ .fresh)
    (present : before.consumer ≠ .gone) (allowed : before.cancelled = false)
    (free : before.running < limits.workers)
    (found : before.tasks[index]? = some task) (waiting : task.phase.isWaiting = true) :
    ∃ after, before.start? limits index = some after := by
  have possible : ¬ (before.consumer = .fresh ∨ before.consumer = .gone ∨
      before.cancelled = true ∨ limits.workers ≤ before.running) := by
    simp [begun, present, allowed, free]
  obtain ⟨script, phase, pulls, closed⟩ := task
  cases phase <;> simp only [Phase.isWaiting, reduceCtorEq] at waiting
  exact ⟨_, by simp only [start?, if_neg possible, found]; rfl⟩

omit [DecidableEq α] in
theorem exists_running (busy : before.running ≠ 0) :
    ∃ (index : Nat) (task : Task α ε), before.tasks[index]? = some task ∧
      task.phase.isRunning = true := by
  obtain ⟨task, member, running⟩ := List.countP_pos_iff.mp (Nat.pos_of_ne_zero busy)
  obtain ⟨index, found⟩ := List.mem_iff_getElem?.mp member
  exact ⟨index, task, found, running⟩

omit [DecidableEq α] in
/-- A state with an empty queue in which a scan is still waited for has an unfinished scan. -/
theorem Balanced.exists_not_over {received : List (Message α ε)} (balanced : before.Balanced received)
    (pending : 0 < before.remaining) (empty : before.queue = []) :
    ∃ (index : Nat) (task : Task α ε), before.tasks[index]? = some task ∧ task.isSettled = false := by
  have settled := balanced.settled
  have remaining := balanced.remaining
  rw [empty, List.append_nil] at settled
  have few : before.tasks.countP Task.isSettled ≠ before.tasks.length := by omega
  rw [ne_eq, List.countP_eq_length] at few
  simp only [Classical.not_forall, Bool.not_eq_true] at few
  obtain ⟨task, member, unsettled⟩ := few
  obtain ⟨index, found⟩ := List.mem_iff_getElem?.mp member
  exact ⟨index, task, found, unsettled⟩

/-- What a consumer that waits can look forward to: a message is there, the worker of a scan that was
called can go on, or a free worker can call a scan that waits. -/
inductive Moving (limits : Limits) (state : State α ε) : Prop where
  | queued (some : state.queue ≠ [])
  | working {index : Nat} {task : Task α ε} {after : State α ε}
      (found : state.tasks[index]? = some task) (started : task.started = true)
      (taken : state.step? limits (.work index) = some after)
  | startable {index : Nat} {task : Task α ε} {after : State α ε}
      (found : state.tasks[index]? = some task) (waiting : task.started = false)
      (free : state.running < limits.workers)
      (taken : state.step? limits (.start index) = some after)

/-- While the consumer waits for a message, a message is there, a worker can go on, or a scan can be
started. -/
theorem Balanced.moving {received : List (Message α ε)} (balanced : before.Balanced received)
    (workers : 0 < limits.workers) (capacity : 0 < limits.capacity)
    (reading : before.consumer = .reading) (allowed : before.cancelled = false)
    (pending : 0 < before.remaining) : before.Moving limits := by
  by_cases queued : before.queue = []
  · have room : before.queue.length < limits.capacity := by simpa [queued] using capacity
    by_cases busy : before.running = 0
    · obtain ⟨index, task, found, unsettled⟩ := balanced.exists_not_over pending queued
      have idle := List.countP_eq_zero.mp busy task (List.mem_of_getElem? found)
      have waiting : task.phase.isWaiting = true := by
        obtain ⟨script, phase, pulls, closed⟩ := task
        cases phase <;> simp_all [Phase.isRunning, Phase.isWaiting, Task.isSettled]
      have free : before.running < limits.workers := by omega
      obtain ⟨after, taken⟩ := exists_start (by simp [reading]) (by simp [reading]) allowed free
        found waiting
      exact .startable found (by simp [Task.started, waiting]) free taken
    · obtain ⟨index, task, found, running⟩ := exists_running busy
      obtain ⟨after, taken⟩ := exists_work_of_room found running room
      exact .working found (Task.started_of_isRunning running) taken
  · exact .queued queued

theorem Moving.exists_step (moving : before.Moving limits) (reading : before.consumer = .reading) :
    ∃ event after, event ≠ .close ∧ before.step? limits event = some after ∧
      after.effort < before.effort := by
  cases moving with
  | queued some =>
      obtain ⟨⟨after, receipt⟩, received⟩ := exists_receive reading some
      exact ⟨.receive, after, by simp, by simp [step?, received], effort_receive_lt received⟩
  | working _ _ taken => exact ⟨_, _, by simp, taken, effort_work_lt taken⟩
  | startable _ _ _ taken => exact ⟨_, _, by simp, taken, effort_start_lt taken⟩

/-- A merge whose consumer leaves goes on until every worker has stopped. -/
theorem exists_step_of_leaving (limits : Limits) (leaving : before.consumer = .leaving) :
    ∃ event after, event ≠ .close ∧ before.step? limits event = some after ∧ after ≠ before := by
  cases stopped : before.stopped with
  | false =>
      refine ⟨.stop, _, by simp, by simp only [step?, if_pos leaving]; rfl, ?_⟩
      intro same
      have differs := congrArg State.stopped same
      simp [stopped] at differs
  | true =>
      cases cancelled : before.cancelled with
      | false =>
          refine ⟨.cancel, _, by simp, by simp only [step?, if_pos (And.intro leaving stopped)]; rfl, ?_⟩
          intro same
          have differs := congrArg State.cancelled same
          simp [cancelled] at differs
      | true =>
          by_cases busy : before.running = 0
          · refine ⟨.leave, _, by simp,
              by simp only [step?, if_pos (And.intro leaving (And.intro cancelled busy))]; rfl, ?_⟩
            intro same
            have differs := congrArg State.consumer same
            simp [leaving] at differs
          · obtain ⟨index, task, found, running⟩ := exists_running busy
            rcases exists_work_or_quit_of_stopped limits found running stopped with
              ⟨after, taken⟩ | ⟨after, taken⟩
            · refine ⟨.work index, after, by simp, taken, ?_⟩
              intro same
              exact absurd (effort_work_lt taken) (by simp [same])
            · refine ⟨.quit index, after, by simp, taken, ?_⟩
              intro same
              exact absurd (effort_quit_lt taken) (by simp [same])

end State

def Consumer.rank : Consumer → Nat
  | .fresh => 3
  | .reading => 2
  | .leaving => 1
  | .gone => 0

namespace State

/-- Falls with every step that changes the state, closing aside. -/
def rank (state : State α ε) : Nat :=
  state.effort + state.consumer.rank + (!state.stopped).toNat + (!state.cancelled).toNat

variable {limits : Limits} {before after : State α ε}

omit [DecidableEq α] in
theorem rank_lt_of_effort_lt (less : after.effort < before.effort)
    (consumer : after.consumer.rank ≤ before.consumer.rank)
    (stopped : after.stopped = before.stopped) (cancelled : after.cancelled = before.cancelled) :
    after.rank < before.rank := by
  simp only [rank, stopped, cancelled]
  omega

theorem rank_lt {event : Event} (taken : before.step? limits event = some after)
    (unclosed : event ≠ .close) (changed : after ≠ before) : after.rank < before.rank := by
  cases moves_of_step? taken with
  | begin fresh =>
      have same : ∀ consumer, ({ before with consumer := consumer } : State α ε).effort =
          before.effort := fun _ => rfl
      simp only [rank, same, fresh]
      split <;> simp [Consumer.rank]
  | start =>
      exact rank_lt_of_effort_lt (effort_start_lt taken) (Nat.le_refl _) rfl rfl
  | work =>
      exact rank_lt_of_effort_lt (effort_work_lt taken) (Nat.le_refl _) rfl rfl
  | quit =>
      exact rank_lt_of_effort_lt (effort_quit_lt taken) (Nat.le_refl _) rfl rfl
  | receive receives =>
      obtain ⟨⟨reached, receipt⟩, received, same⟩ := Option.map_eq_some_iff.mp taken
      subst same
      have less := effort_receive_lt received
      cases receives with
      | failed reading => exact rank_lt_of_effort_lt less (by simp [reading, Consumer.rank]) rfl rfl
      | last reading => exact rank_lt_of_effort_lt less (by simp [reading, Consumer.rank]) rfl rfl
      | repeated => exact rank_lt_of_effort_lt less (Nat.le_refl _) rfl rfl
      | fresh => exact rank_lt_of_effort_lt less (Nat.le_refl _) rfl rfl
      | done => exact rank_lt_of_effort_lt less (Nat.le_refl _) rfl rfl
  | closeFresh => exact absurd rfl unclosed
  | closeReading => exact absurd rfl unclosed
  | stop =>
      cases stopped : before.stopped with
      | true =>
          refine absurd ?_ changed
          cases before
          simp_all
      | false => simp [rank, stopped, effort]
  | cancel =>
      cases cancelled : before.cancelled with
      | true =>
          refine absurd ?_ changed
          cases before
          simp_all
      | false => simp [rank, cancelled, effort]
  | leave leaving => simp [rank, leaving, Consumer.rank, effort]

end State

end PathSearch.Merge
