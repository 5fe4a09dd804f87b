import PathSearch.Merge.State

namespace PathSearch.Merge

variable {α ε : Type}

/-- A step of the merge. `work` and `quit` are steps of the worker of one scan, `start` gives a scan a
worker; the others are the consumer's. Any order of possible steps is a run of the merge. -/
inductive Event where
  | begin
  | start (index : Nat)
  | work (index : Nat)
  | quit (index : Nat)
  | receive
  | close
  | stop
  | cancel
  | leave
  deriving DecidableEq, Repr

/-- What receiving a message gives the consumer. -/
inductive Receipt (α ε : Type) where
  | fresh (value : α)
  | silent
  | finished
  | failed (error : ε)

namespace State

/-- The next step of a worker that is not blocked: a message can be put only while the queue has
room. -/
def work? (limits : Limits) (state : State α ε) (index : Nat) : Option (State α ε) :=
  match state.tasks[index]? with
  | none => none
  | some task =>
      let room := state.queue.length < limits.capacity
      match task.phase with
      | .waiting => none
      | .over => none
      | .pulling [] =>
          let next := match task.script.failure with
            | some error => .reporting error true
            | none => .closing true
          some (state.setTask index { task with phase := next, pulls := task.pulls + 1 })
      | .pulling (value :: rest) =>
          some (state.setTask index
            { task with phase := .offering value rest, pulls := task.pulls + 1 })
      | .offering value rest =>
          if room then
            some ((state.send (.item value)).setTask index { task with phase := .pulling rest })
          else none
      | .reporting error called =>
          if room then
            some ((state.send (.failed error)).setTask index
              { task with phase := if called then .closing false else .over })
          else none
      | .closing complete =>
          some (state.setTask index { task with
            phase := if complete then .concluding else .over
            closed := task.script.closable })
      | .concluding =>
          if room then some ((state.send .done).setTask index { task with phase := .over })
          else none

/-- A worker that would put a message gives up once the merge is stopped. -/
def quit? (state : State α ε) (index : Nat) : Option (State α ε) :=
  if state.stopped then
    match state.tasks[index]? with
    | none => none
    | some task =>
        match task.phase with
        | .offering _ _ => some (state.setTask index { task with phase := .closing false })
        | .reporting _ true => some (state.setTask index { task with phase := .closing false })
        | .reporting _ false => some (state.setTask index { task with phase := .over })
        | .concluding => some (state.setTask index { task with phase := .over })
        | _ => none
  else none

/-- A scan that waits is called by a free worker, unless the scans still waiting were cancelled. There
are workers only from the first request until the stream is over. -/
def start? (limits : Limits) (state : State α ε) (index : Nat) : Option (State α ε) :=
  if state.consumer = .fresh ∨ state.consumer = .gone ∨ state.cancelled ∨
      limits.workers ≤ state.running then none
  else
    match state.tasks[index]? with
    | none => none
    | some task =>
        match task.phase with
        | .waiting =>
            let phase := match task.script.refusal with
              | some error => .reporting error false
              | none => .pulling task.script.items
            some (state.setTask index { task with phase })
        | _ => none

variable [DecidableEq α]

/-- The consumer takes the first message. An item that was seen before is passed over. -/
def receive? (state : State α ε) : Option (State α ε × Receipt α ε) :=
  if state.consumer = .reading then
    match state.queue with
    | [] => none
    | .item value :: rest =>
        if value ∈ state.seen then some ({ state with queue := rest }, .silent)
        else some ({ state with queue := rest, seen := state.seen ++ [value] }, .fresh value)
    | .failed error :: rest =>
        some ({ state with queue := rest, consumer := .leaving }, .failed error)
    | .done :: rest =>
        if state.remaining ≤ 1 then
          some ({ state with queue := rest, remaining := 0, consumer := .leaving }, .finished)
        else some ({ state with queue := rest, remaining := state.remaining - 1 }, .silent)
  else none

/-- The state after a step, if the step is possible. -/
def step? (limits : Limits) (state : State α ε) : Event → Option (State α ε)
  | .begin =>
      if state.consumer = .fresh then
        some { state with consumer := if state.tasks.isEmpty then .gone else .reading }
      else none
  | .start index => state.start? limits index
  | .work index => state.work? limits index
  | .quit index => state.quit? index
  | .receive => state.receive?.map Prod.fst
  | .close =>
      match state.consumer with
      | .fresh => some { state with stopped := true, consumer := .gone }
      | .reading => some { state with stopped := true, consumer := .leaving }
      | _ => none
  | .stop =>
      if state.consumer = .leaving then some { state with stopped := true } else none
  | .cancel =>
      if state.consumer = .leaving ∧ state.stopped then some { state with cancelled := true }
      else none
  | .leave =>
      if state.consumer = .leaving ∧ state.cancelled ∧ state.running = 0 then
        some { state with consumer := .gone }
      else none

end State

/-- The states that some order of steps leads to. -/
inductive Reachable [DecidableEq α] (limits : Limits) (scripts : List (Script α ε)) : State α ε → Prop where
  | initial : Reachable limits scripts (.ofScripts scripts)
  | step {before after : State α ε} (event : Event) (reached : Reachable limits scripts before)
      (taken : before.step? limits event = some after) : Reachable limits scripts after

end PathSearch.Merge
