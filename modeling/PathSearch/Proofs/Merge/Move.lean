import PathSearch.Merge.Stream

namespace PathSearch.Merge

/-! What a step of the merge can be. Later proofs go through these cases and never open the step
function again. -/

variable {α ε : Type}

/-- A worker's step that is neither its start nor giving up: the task before it, the message that it
puts into the queue if there is one, and the task after it. -/
inductive Task.Works : Task α ε → Option (Message α ε) → Task α ε → Prop where
  | pulled {script : Script α ε} {value : α} {rest : List α} {pulls : Nat} {closed : Bool} :
      Works ⟨script, .pulling (value :: rest), pulls, closed⟩ none
        ⟨script, .offering value rest, pulls + 1, closed⟩
  | exhausted {script : Script α ε} {pulls : Nat} {closed : Bool} (ends : script.failure = none) :
      Works ⟨script, .pulling [], pulls, closed⟩ none ⟨script, .closing true, pulls + 1, closed⟩
  | failed {script : Script α ε} {error : ε} {pulls : Nat} {closed : Bool}
      (fails : script.failure = some error) :
      Works ⟨script, .pulling [], pulls, closed⟩ none
        ⟨script, .reporting error true, pulls + 1, closed⟩
  | offered {script : Script α ε} {value : α} {rest : List α} {pulls : Nat} {closed : Bool} :
      Works ⟨script, .offering value rest, pulls, closed⟩ (some (.item value))
        ⟨script, .pulling rest, pulls, closed⟩
  | reported {script : Script α ε} {error : ε} {called : Bool} {pulls : Nat} {closed : Bool} :
      Works ⟨script, .reporting error called, pulls, closed⟩ (some (.failed error))
        ⟨script, if called then .closing false else .over, pulls, closed⟩
  | finished {script : Script α ε} {pulls : Nat} {closed : Bool} :
      Works ⟨script, .closing true, pulls, closed⟩ none
        ⟨script, .concluding, pulls, script.closable⟩
  | abandoned {script : Script α ε} {pulls : Nat} {closed : Bool} :
      Works ⟨script, .closing false, pulls, closed⟩ none ⟨script, .over, pulls, script.closable⟩
  | concluded {script : Script α ε} {pulls : Nat} {closed : Bool} :
      Works ⟨script, .concluding, pulls, closed⟩ (some .done) ⟨script, .over, pulls, closed⟩

/-- A scan that waits is called: it is refused, or its items are to be pulled. -/
inductive Task.Starts : Task α ε → Task α ε → Prop where
  | called {script : Script α ε} {pulls : Nat} {closed : Bool} (accepted : script.refusal = none) :
      Starts ⟨script, .waiting, pulls, closed⟩ ⟨script, .pulling script.items, pulls, closed⟩
  | refused {script : Script α ε} {error : ε} {pulls : Nat} {closed : Bool}
      (refusal : script.refusal = some error) :
      Starts ⟨script, .waiting, pulls, closed⟩ ⟨script, .reporting error false, pulls, closed⟩

/-- A worker gives up putting its message. -/
inductive Task.Quits : Task α ε → Task α ε → Prop where
  | offering {script : Script α ε} {value : α} {rest : List α} {pulls : Nat} {closed : Bool} :
      Quits ⟨script, .offering value rest, pulls, closed⟩ ⟨script, .closing false, pulls, closed⟩
  | reporting {script : Script α ε} {error : ε} {called : Bool} {pulls : Nat} {closed : Bool} :
      Quits ⟨script, .reporting error called, pulls, closed⟩
        ⟨script, if called then .closing false else .over, pulls, closed⟩
  | concluding {script : Script α ε} {pulls : Nat} {closed : Bool} :
      Quits ⟨script, .concluding, pulls, closed⟩ ⟨script, .over, pulls, closed⟩

namespace State

/-- The state with what a worker sends at the end of the queue. -/
def post (state : State α ε) (message : Option (Message α ε)) : State α ε :=
  { state with queue := state.queue ++ message.toList }

@[simp] theorem post_none (state : State α ε) : state.post none = state := by
  simp [post]

/-- What receiving the first message does. -/
inductive Receives (before : State α ε) : State α ε → Receipt α ε → Prop where
  | repeated {value : α} {rest : List (Message α ε)} (reading : before.consumer = .reading)
      (queue : before.queue = .item value :: rest) (known : value ∈ before.seen) :
      Receives before { before with queue := rest } .silent
  | fresh {value : α} {rest : List (Message α ε)} (reading : before.consumer = .reading)
      (queue : before.queue = .item value :: rest) (unknown : value ∉ before.seen) :
      Receives before { before with queue := rest, seen := before.seen ++ [value] } (.fresh value)
  | failed {error : ε} {rest : List (Message α ε)} (reading : before.consumer = .reading)
      (queue : before.queue = .failed error :: rest) :
      Receives before { before with queue := rest, consumer := .leaving } (.failed error)
  | last {rest : List (Message α ε)} (reading : before.consumer = .reading)
      (queue : before.queue = .done :: rest) (few : before.remaining ≤ 1) :
      Receives before { before with queue := rest, remaining := 0, consumer := .leaving } .finished
  | done {rest : List (Message α ε)} (reading : before.consumer = .reading)
      (queue : before.queue = .done :: rest) (many : 1 < before.remaining) :
      Receives before { before with queue := rest, remaining := before.remaining - 1 } .silent

theorem Receives.consumer_eq {before after : State α ε} {receipt : Receipt α ε}
    (receives : before.Receives after receipt) : before.consumer = .reading := by
  cases receives <;> assumption

/-- What a step does, by its event. -/
inductive Moves (limits : Limits) (before : State α ε) : Event → State α ε → Prop where
  | begin (fresh : before.consumer = .fresh) :
      Moves limits before .begin
        { before with consumer := if before.tasks.isEmpty then .gone else .reading }
  | start {index : Nat} {task next : Task α ε} (begun : before.consumer ≠ .fresh)
      (allowed : before.cancelled = false) (free : before.running < limits.workers)
      (found : before.tasks[index]? = some task) (starts : task.Starts next)
      (present : before.consumer ≠ .gone) :
      Moves limits before (.start index) (before.setTask index next)
  | work {index : Nat} {task next : Task α ε} {message : Option (Message α ε)}
      (found : before.tasks[index]? = some task) (works : task.Works message next)
      (room : message.isSome → before.queue.length < limits.capacity) :
      Moves limits before (.work index) ((before.post message).setTask index next)
  | quit {index : Nat} {task next : Task α ε} (stopped : before.stopped = true)
      (found : before.tasks[index]? = some task) (quits : task.Quits next) :
      Moves limits before (.quit index) (before.setTask index next)
  | receive {after : State α ε} {receipt : Receipt α ε} (receives : before.Receives after receipt) :
      Moves limits before .receive after
  | closeFresh (fresh : before.consumer = .fresh) :
      Moves limits before .close { before with stopped := true, consumer := .gone }
  | closeReading (reading : before.consumer = .reading) :
      Moves limits before .close { before with stopped := true, consumer := .leaving }
  | stop (leaving : before.consumer = .leaving) :
      Moves limits before .stop { before with stopped := true }
  | cancel (leaving : before.consumer = .leaving) (stopped : before.stopped = true) :
      Moves limits before .cancel { before with cancelled := true }
  | leave (leaving : before.consumer = .leaving) (cancelled : before.cancelled = true)
      (idle : before.running = 0) :
      Moves limits before .leave { before with consumer := .gone }

theorem Moves.workSilently {limits : Limits} {before : State α ε} {index : Nat}
    {task next : Task α ε} (found : before.tasks[index]? = some task)
    (works : task.Works none next) :
    before.Moves limits (.work index) (before.setTask index next) := by
  have moved : before.Moves limits _ _ := .work found works (by simp)
  rwa [post_none] at moved

theorem moves_of_start? {limits : Limits} {before after : State α ε} {index : Nat}
    (taken : before.start? limits index = some after) : before.Moves limits (.start index) after := by
  unfold start? at taken
  split at taken
  · simp at taken
  · rename_i blocked
    simp only [not_or, Nat.not_le, Bool.not_eq_true] at blocked
    obtain ⟨begun, present, allowed, free⟩ := blocked
    cases found : before.tasks[index]? with
    | none => simp [found] at taken
    | some task =>
        obtain ⟨script, phase, pulls, closed⟩ := task
        cases phase <;> simp only [found, Option.some.injEq, reduceCtorEq] at taken
        subst taken
        refine .start begun allowed free found ?_ present
        cases refusal : script.refusal with
        | none => exact .called refusal
        | some error => exact .refused refusal

theorem moves_of_work? {limits : Limits} {before after : State α ε} {index : Nat}
    (taken : before.work? limits index = some after) : before.Moves limits (.work index) after := by
  unfold work? at taken
  cases found : before.tasks[index]? with
  | none => simp [found] at taken
  | some task =>
      obtain ⟨script, phase, pulls, closed⟩ := task
      cases phase with
      | waiting => simp [found] at taken
      | «over» => simp [found] at taken
      | pulling rest =>
          cases rest with
          | nil =>
              simp only [found, Option.some.injEq] at taken
              subst taken
              cases failure : script.failure with
              | none => exact .workSilently found (.exhausted failure)
              | some error => exact .workSilently found (.failed failure)
          | cons value rest =>
              simp only [found, Option.some.injEq] at taken
              subst taken
              exact .workSilently found .pulled
      | offering value rest =>
          simp only [found] at taken
          split at taken
          · rename_i room
            cases taken
            exact .work found .offered (fun _ => room)
          · simp at taken
      | reporting error called =>
          simp only [found] at taken
          split at taken
          · rename_i room
            cases taken
            exact .work found .reported (fun _ => room)
          · simp at taken
      | closing complete =>
          simp only [found, Option.some.injEq] at taken
          subst taken
          cases complete with
          | true => exact .workSilently found .finished
          | false => exact .workSilently found .abandoned
      | concluding =>
          simp only [found] at taken
          split at taken
          · rename_i room
            cases taken
            exact .work found .concluded (fun _ => room)
          · simp at taken

theorem moves_of_quit? {limits : Limits} {before after : State α ε} {index : Nat}
    (taken : before.quit? index = some after) : before.Moves limits (.quit index) after := by
  unfold quit? at taken
  split at taken
  · rename_i stopped
    cases found : before.tasks[index]? with
    | none => simp [found] at taken
    | some task =>
        obtain ⟨script, phase, pulls, closed⟩ := task
        cases phase with
        | offering value rest =>
            simp only [found, Option.some.injEq] at taken
            subst taken
            exact .quit stopped found .offering
        | reporting error called =>
            cases called <;> simp only [found, Option.some.injEq] at taken <;> subst taken <;>
              exact .quit stopped found .reporting
        | concluding =>
            simp only [found, Option.some.injEq] at taken
            subst taken
            exact .quit stopped found .concluding
        | waiting => simp [found] at taken
        | pulling rest => simp [found] at taken
        | closing complete => simp [found] at taken
        | «over» => simp [found] at taken
  · simp at taken

variable [DecidableEq α]

theorem receives_of_receive? {before after : State α ε} {receipt : Receipt α ε}
    (taken : before.receive? = some (after, receipt)) : before.Receives after receipt := by
  unfold receive? at taken
  split at taken
  · rename_i reading
    split at taken
    · simp at taken
    · rename_i value rest queue
      split at taken
      · rename_i known
        cases taken
        exact .repeated reading queue known
      · rename_i unknown
        cases taken
        exact .fresh reading queue unknown
    · rename_i error rest queue
      cases taken
      exact .failed reading queue
    · rename_i rest queue
      split at taken
      · rename_i few
        cases taken
        exact .last reading queue few
      · rename_i many
        cases taken
        exact .done reading queue (by omega)
  · simp at taken

theorem moves_of_step? {limits : Limits} {before after : State α ε} {event : Event}
    (taken : before.step? limits event = some after) : before.Moves limits event after := by
  cases event with
  | begin =>
      simp only [step?] at taken
      split at taken
      · rename_i fresh
        cases taken
        exact .begin fresh
      · simp at taken
  | start index => exact moves_of_start? taken
  | work index => exact moves_of_work? taken
  | quit index => exact moves_of_quit? taken
  | receive =>
      obtain ⟨⟨reached, receipt⟩, received, rfl⟩ := Option.map_eq_some_iff.mp taken
      exact .receive (receives_of_receive? received)
  | close =>
      simp only [step?] at taken
      split at taken
      · rename_i fresh
        cases taken
        exact .closeFresh fresh
      · rename_i reading
        cases taken
        exact .closeReading reading
      · simp at taken
  | stop =>
      simp only [step?] at taken
      split at taken
      · rename_i leaving
        cases taken
        exact .stop leaving
      · simp at taken
  | cancel =>
      simp only [step?] at taken
      split at taken
      · rename_i held
        cases taken
        exact .cancel held.1 held.2
      · simp at taken
  | leave =>
      simp only [step?] at taken
      split at taken
      · rename_i held
        cases taken
        exact .leave held.1 held.2.1 held.2.2
      · simp at taken

end State

end PathSearch.Merge
