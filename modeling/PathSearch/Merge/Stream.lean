import PathSearch.Merge.Step

namespace PathSearch.Merge

/-!
The merge as a stream. Of the possible steps this schedule prefers a worker's, then the consumer's, and
starts a scan only when nothing else can happen. `effort` falls with every step, so each operation of
the stream comes to an end.
-/

variable {α ε : Type}

/-- The steps that a phase still needs. -/
def Phase.effort (script : Script α ε) : Phase α ε → Nat
  | .waiting => 2 * script.items.length + 7
  | .pulling rest => 2 * rest.length + 6
  | .offering _ rest => 2 * rest.length + 7
  | .reporting _ _ => 4
  | .closing _ => 3
  | .concluding => 2
  | .over => 0

def Task.effort (task : Task α ε) : Nat := task.phase.effort task.script

def totalEffort : List (Task α ε) → Nat
  | [] => 0
  | task :: tasks => task.effort + totalEffort tasks

def State.effort (state : State α ε) : Nat := 2 * totalEffort state.tasks + state.queue.length

theorem totalEffort_set {tasks : List (Task α ε)} {index : Nat} {old new : Task α ε}
    (found : tasks[index]? = some old) :
    totalEffort (tasks.set index new) + old.effort = totalEffort tasks + new.effort := by
  induction tasks generalizing index with
  | nil => simp at found
  | cons first rest ih =>
      cases index with
      | zero =>
          simp only [List.getElem?_cons_zero, Option.some.injEq] at found
          subst found
          simp only [List.set_cons_zero, totalEffort]
          omega
      | succ index =>
          have inner := ih (by simpa using found)
          simp only [List.set_cons_succ, totalEffort]
          omega

theorem effort_setTask_lt {state : State α ε} {index : Nat} {old new : Task α ε}
    (found : state.tasks[index]? = some old) (less : new.effort < old.effort) :
    (state.setTask index new).effort < state.effort := by
  have total : totalEffort (state.tasks.set index new) + _ = _ := totalEffort_set found
  simp only [State.effort, State.setTask]
  omega

theorem effort_send_setTask_lt {state : State α ε} {index : Nat} {old new : Task α ε}
    {message : Message α ε} (found : state.tasks[index]? = some old)
    (less : new.effort < old.effort) :
    ((state.send message).setTask index new).effort < state.effort := by
  have total : totalEffort (state.tasks.set index new) + _ = _ := totalEffort_set found
  simp only [State.effort, State.setTask, State.send, List.length_append, List.length_singleton]
  omega

theorem effort_work_lt {limits : Limits} {state after : State α ε} {index : Nat}
    (taken : state.work? limits index = some after) : after.effort < state.effort := by
  unfold State.work? at taken
  cases found : state.tasks[index]? with
  | none => simp [found] at taken
  | some task =>
      simp only [found] at taken
      split at taken
      · simp at taken
      · simp at taken
      · rename_i phase
        cases taken
        refine effort_setTask_lt found ?_
        simp only [Task.effort, phase]
        split <;> simp [Phase.effort]
      · rename_i phase
        cases taken
        refine effort_setTask_lt found ?_
        simp only [Task.effort, phase, Phase.effort, List.length_cons]
        omega
      · rename_i phase
        split at taken
        · cases taken
          refine effort_send_setTask_lt found ?_
          simp only [Task.effort, phase, Phase.effort]
          omega
        · simp at taken
      · rename_i phase
        split at taken
        · cases taken
          refine effort_send_setTask_lt found ?_
          simp only [Task.effort, phase]
          split <;> simp [Phase.effort]
        · simp at taken
      · rename_i phase
        cases taken
        refine effort_setTask_lt found ?_
        simp only [Task.effort, phase]
        split <;> simp [Phase.effort]
      · rename_i phase
        split at taken
        · cases taken
          refine effort_send_setTask_lt found ?_
          simp [Task.effort, phase, Phase.effort]
        · simp at taken

theorem effort_quit_lt {state after : State α ε} {index : Nat}
    (taken : state.quit? index = some after) : after.effort < state.effort := by
  unfold State.quit? at taken
  split at taken
  · cases found : state.tasks[index]? with
    | none => simp [found] at taken
    | some task =>
        simp only [found] at taken
        split at taken
        · rename_i phase
          cases taken
          refine effort_setTask_lt found ?_
          simp only [Task.effort, phase, Phase.effort]
          omega
        · rename_i phase
          cases taken
          refine effort_setTask_lt found ?_
          simp [Task.effort, phase, Phase.effort]
        · rename_i phase
          cases taken
          refine effort_setTask_lt found ?_
          simp [Task.effort, phase, Phase.effort]
        · rename_i phase
          cases taken
          refine effort_setTask_lt found ?_
          simp [Task.effort, phase, Phase.effort]
        · simp at taken
  · simp at taken

theorem effort_start_lt {limits : Limits} {state after : State α ε} {index : Nat}
    (taken : state.start? limits index = some after) : after.effort < state.effort := by
  unfold State.start? at taken
  split at taken
  · simp at taken
  · cases found : state.tasks[index]? with
    | none => simp [found] at taken
    | some task =>
        simp only [found] at taken
        split at taken
        · rename_i phase
          cases taken
          refine effort_setTask_lt found ?_
          simp only [Task.effort, phase]
          split <;> simp only [Phase.effort] <;> omega
        · simp at taken

theorem effort_receive_lt [DecidableEq α] {state after : State α ε} {receipt : Receipt α ε}
    (taken : state.receive? = some (after, receipt)) : after.effort < state.effort := by
  unfold State.receive? at taken
  split at taken
  · split at taken
    · simp at taken
    · rename_i queue
      split at taken <;> cases taken <;> simp [State.effort, queue]
    · rename_i queue
      cases taken
      simp [State.effort, queue]
    · rename_i queue
      split at taken <;> cases taken <;> simp [State.effort, queue]
  · simp at taken

namespace State

def workFirst? (limits : Limits) (state : State α ε) : Option (State α ε) :=
  (List.range state.tasks.length).findSome? (state.work? limits)

def quitFirst? (state : State α ε) : Option (State α ε) :=
  (List.range state.tasks.length).findSome? state.quit?

def startFirst? (limits : Limits) (state : State α ε) : Option (State α ε) :=
  (List.range state.tasks.length).findSome? (state.start? limits)

/-- Lets the workers alone go on until none of them can, starting scans as places fall free. -/
def idle (limits : Limits) (state : State α ε) : State α ε :=
  match _worked : state.workFirst? limits with
  | some next => idle limits next
  | none =>
      match _started : state.startFirst? limits with
      | some next => idle limits next
      | none => state
termination_by state.effort
decreasing_by
  · obtain ⟨_, -, taken⟩ := List.exists_of_findSome?_eq_some _worked
    exact effort_work_lt taken
  · obtain ⟨_, -, taken⟩ := List.exists_of_findSome?_eq_some _started
    exact effort_start_lt taken

/-- Lets the running workers come to their end after the merge was stopped. -/
def drain (limits : Limits) (state : State α ε) : State α ε :=
  match _gaveUp : state.quitFirst? with
  | some next => drain limits next
  | none =>
      match _worked : state.workFirst? limits with
      | some next => drain limits next
      | none => state
termination_by state.effort
decreasing_by
  · obtain ⟨_, -, taken⟩ := List.exists_of_findSome?_eq_some _gaveUp
    exact effort_quit_lt taken
  · obtain ⟨_, -, taken⟩ := List.exists_of_findSome?_eq_some _worked
    exact effort_work_lt taken

variable [DecidableEq α]

/-- Takes a step that is possible, and none otherwise. -/
def attempt (limits : Limits) (state : State α ε) (event : Event) : State α ε :=
  (state.step? limits event).getD state

/-- Ends the stream once the consumer has nothing more to read. -/
def leave (limits : Limits) (state : State α ε) : State α ε :=
  let cancelled := (state.attempt limits .stop).attempt limits .cancel
  (cancelled.drain limits).attempt limits .leave

def close (limits : Limits) (state : State α ε) : State α ε :=
  (state.attempt limits .close).leave limits

end State

inductive Answer (α ε : Type) where
  | value (value : α)
  | ended
  | failed (error : ε)

namespace State

variable [DecidableEq α]

/-- Reads until there is an answer for the consumer. -/
def read (limits : Limits) (state : State α ε) : Answer α ε × State α ε :=
  match _worked : state.workFirst? limits with
  | some next => read limits next
  | none =>
      match _received : state.receive? with
      | some (next, .fresh value) => (.value value, next)
      | some (next, .silent) => read limits next
      | some (next, .finished) => (.ended, next.leave limits)
      | some (next, .failed error) => (.failed error, next.leave limits)
      | none =>
          match _started : state.startFirst? limits with
          | some next => read limits next
          | none => (.ended, state)
termination_by state.effort
decreasing_by
  · obtain ⟨_, -, taken⟩ := List.exists_of_findSome?_eq_some _worked
    exact effort_work_lt taken
  · exact effort_receive_lt _received
  · obtain ⟨_, -, taken⟩ := List.exists_of_findSome?_eq_some _started
    exact effort_start_lt taken

/-- The next item of the stream; the first request is what sets the merge going. -/
def next (limits : Limits) (state : State α ε) : Answer α ε × State α ε :=
  match state.consumer with
  | .fresh =>
      let begun := state.attempt limits .begin
      if begun.consumer = .reading then begun.read limits else (.ended, begun)
  | .reading => state.read limits
  | _ => (.ended, state)

theorem effort_attempt_begin (limits : Limits) (state : State α ε) :
    (state.attempt limits .begin).effort = state.effort := by
  by_cases fresh : state.consumer = .fresh <;> simp [attempt, step?, fresh, effort]

theorem effort_read_lt {limits : Limits} {state after : State α ε} {value : α}
    (answered : state.read limits = (.value value, after)) : after.effort < state.effort := by
  fun_induction State.read limits state with
  | case1 state next worked ih =>
      obtain ⟨_, -, taken⟩ := List.exists_of_findSome?_eq_some worked
      exact Nat.lt_trans (ih answered) (effort_work_lt taken)
  | case2 state _ next found received =>
      cases answered
      exact effort_receive_lt received
  | case3 state _ next received ih =>
      exact Nat.lt_trans (ih answered) (effort_receive_lt received)
  | case4 => cases answered
  | case5 => cases answered
  | case6 state _ _ next started ih =>
      obtain ⟨_, -, taken⟩ := List.exists_of_findSome?_eq_some started
      exact Nat.lt_trans (ih answered) (effort_start_lt taken)
  | case7 => cases answered

theorem effort_next_lt {limits : Limits} {state after : State α ε} {value : α}
    (answered : state.next limits = (.value value, after)) : after.effort < state.effort := by
  unfold State.next at answered
  split at answered
  · simp only at answered
    split at answered
    · have less := effort_read_lt answered
      rwa [effort_attempt_begin] at less
    · cases answered
  · exact effort_read_lt answered
  · cases answered

/-- Reads the stream to its end: the items in order, the failure that ended it if there was one, and
the state it leaves. -/
def collect (limits : Limits) (state : State α ε) : List α × Option ε × State α ε :=
  match _answered : state.next limits with
  | (.value value, after) =>
      let (rest, failure, final) := collect limits after
      (value :: rest, failure, final)
  | (.ended, after) => ([], none, after)
  | (.failed error, after) => ([], some error, after)
termination_by state.effort
decreasing_by exact effort_next_lt _answered

end State

/-- The number of scans to run at a time, unless the caller chooses it: one for each scan, within what
the processors can carry and never more than thirty-two. -/
def defaultWorkers (scans : Int) (processors : Option Int) : Int :=
  let carried := (match processors with
    | none => 1
    | some 0 => 1
    | some count => count) + 4
  max 1 (min scans (min 32 carried))

def queueCapacity : Nat := 1024

end PathSearch.Merge
