import PathSearch.Proofs.Merge.Schedule

namespace PathSearch.Merge

/-!
What is left of a stream that is over, whichever way it came to its end: no worker, no scan that is still
open, and no step that could be taken. A stream that nobody reads calls no scan at all.
-/

variable {α ε : Type}

namespace Task

/-- The scan was called and there is something to close. -/
def Obtained (task : Task α ε) : Prop := task.started = true ∧ task.script.refusal = none

/-- A worker that has no more to do than to announce its end, or not even that, has closed its scan. -/
def Tidy (task : Task α ε) : Prop :=
  match task.phase with
  | .reporting _ false => task.script.refusal ≠ none
  | .concluding => task.closed = task.script.closable
  | .over => task.script.refusal = none → task.closed = task.script.closable
  | _ => True

variable {task next : Task α ε}

theorem Starts.tidy (starts : task.Starts next) : next.Tidy := by
  cases starts with
  | called => trivial
  | refused refusal => simp [Tidy, refusal]

theorem Works.tidy {message : Option (Message α ε)} (works : task.Works message next)
    (tidy : task.Tidy) : next.Tidy := by
  cases works with
  | @reported _ _ called =>
      cases called with
      | true => trivial
      | false => exact fun accepted => absurd accepted tidy
  | finished => rfl
  | abandoned => exact fun _ => rfl
  | concluded => exact fun _ => tidy
  | pulled => trivial
  | exhausted => trivial
  | failed => trivial
  | offered => trivial

theorem Quits.tidy (quits : task.Quits next) (tidy : task.Tidy) : next.Tidy := by
  cases quits with
  | offering => trivial
  | @reporting _ _ called =>
      cases called with
      | true => trivial
      | false => exact fun accepted => absurd accepted tidy
  | concluding => exact fun _ => tidy

theorem Starts.waiting (starts : task.Starts next) : task.started = false := by
  cases starts <;> rfl

theorem Works.running {message : Option (Message α ε)} (works : task.Works message next) :
    task.phase.isRunning = true := by
  cases works <;> rfl

theorem Quits.running (quits : task.Quits next) : task.phase.isRunning = true := by
  cases quits <;> rfl

theorem isRunning_of_not_started (unstarted : task.started = false) :
    task.phase.isRunning = false := by
  cases running : task.phase.isRunning with
  | false => rfl
  | true => simp [started_of_isRunning running] at unstarted

theorem Starts.closed_eq (starts : task.Starts next) : next.closed = task.closed := by
  cases starts <;> rfl

theorem Quits.closed_eq (quits : task.Quits next) : next.closed = task.closed := by
  cases quits <;> rfl

end Task

namespace State

variable {limits : Limits} {before after : State α ε} {event : Event}

/-- What steps of workers keep of each task holds of all tasks after a step. -/
theorem Moves.forall_tasks {holds : Task α ε → Prop}
    (starts : ∀ {task next : Task α ε}, task.Starts next → holds task → holds next)
    (works : ∀ {task next : Task α ε} {message : Option (Message α ε)},
      task.Works message next → holds task → holds next)
    (quits : ∀ {task next : Task α ε}, task.Quits next → holds task → holds next)
    (moves : before.Moves limits event after) (all : ∀ task ∈ before.tasks, holds task) :
    ∀ task ∈ after.tasks, holds task := by
  have replaced : ∀ {index : Nat} {task next : Task α ε}, before.tasks[index]? = some task →
      (holds task → holds next) → ∀ other ∈ before.tasks.set index next, holds other := by
    intro index task next found kept other member
    rcases List.mem_or_eq_of_mem_set member with member | rfl
    · exact all other member
    · exact kept (all task (List.mem_of_getElem? found))
  cases moves with
  | start _ _ _ found taken => exact replaced found (starts taken)
  | work found taken => exact replaced found (works taken)
  | quit _ found taken => exact replaced found (quits taken)
  | receive receives => cases receives <;> exact all
  | begin => exact all
  | closeFresh => exact all
  | closeReading => exact all
  | stop => exact all
  | cancel => exact all
  | leave => exact all

/-- A scan is closed in a step of its own worker only. -/
theorem Moves.closed_eq {index : Nat} (moves : before.Moves limits event after)
    (other : event ≠ .work index) :
    after.tasks[index]?.map Task.closed = before.tasks[index]?.map Task.closed := by
  have elsewhere : ∀ {place : Nat} {task next : Task α ε}, before.tasks[place]? = some task →
      next.closed = task.closed →
      (before.tasks.set place next)[index]?.map Task.closed =
        before.tasks[index]?.map Task.closed := by
    intro place task next found same
    by_cases here : place = index
    · subst here
      obtain ⟨inside, -⟩ := List.getElem?_eq_some_iff.mp found
      rw [List.getElem?_set_self inside, found, Option.map_some, Option.map_some, same]
    · rw [List.getElem?_set_ne here]
  cases moves with
  | start _ _ _ found starts => exact elsewhere found starts.closed_eq
  | @work place _ _ _ found works =>
      have apart : place ≠ index := fun same => other (congrArg Event.work same)
      exact congrArg (Option.map Task.closed) (List.getElem?_set_ne apart)
  | quit _ found quits => exact elsewhere found quits.closed_eq
  | receive receives => cases receives <;> rfl
  | begin => rfl
  | closeFresh => rfl
  | closeReading => rfl
  | stop => rfl
  | cancel => rfl
  | leave => rfl

/-- Before the first request no scan was called, and when the stream is over no worker runs. -/
structure Framed (state : State α ε) : Prop where
  unasked : state.consumer = .fresh → ∀ task ∈ state.tasks, task.started = false
  idle : state.consumer = .gone → ∀ task ∈ state.tasks, task.phase.isRunning = false
  tidy : ∀ task ∈ state.tasks, task.Tidy

theorem framed_ofScripts (scripts : List (Script α ε)) : (ofScripts scripts).Framed where
  unasked := by
    intro _ task member
    obtain ⟨script, -, rfl⟩ := List.mem_map.mp member
    rfl
  idle := by simp [ofScripts]
  tidy := by
    intro task member
    obtain ⟨script, -, rfl⟩ := List.mem_map.mp member
    trivial

/-- A stream that is over takes no step. -/
theorem Framed.not_moves (framed : before.Framed) (gone : before.consumer = .gone) :
    ¬ before.Moves limits event after := by
  have idle : ∀ {index : Nat} {task : Task α ε}, before.tasks[index]? = some task →
      ¬ task.phase.isRunning = true := by
    intro index task found
    simp [framed.idle gone task (List.mem_of_getElem? found)]
  intro moves
  cases moves with
  | start _ _ _ _ _ present => exact present gone
  | work found works => exact idle found works.running
  | quit _ found quits => exact idle found quits.running
  | receive receives => simp [receives.consumer_eq] at gone
  | begin fresh => simp [fresh] at gone
  | closeFresh fresh => simp [fresh] at gone
  | closeReading reading => simp [reading] at gone
  | stop leaving => simp [leaving] at gone
  | cancel leaving => simp [leaving] at gone
  | leave leaving => simp [leaving] at gone

/-- Before the first request a stream can only be asked or closed. -/
theorem Framed.moves_of_fresh (framed : before.Framed) (fresh : before.consumer = .fresh)
    (moves : before.Moves limits event after) :
    event = .begin ∨ after.consumer = .gone ∧ after.tasks = before.tasks := by
  have idle : ∀ {index : Nat} {task : Task α ε}, before.tasks[index]? = some task →
      ¬ task.phase.isRunning = true := by
    intro index task found
    have unstarted := framed.unasked fresh task (List.mem_of_getElem? found)
    simp [Task.isRunning_of_not_started unstarted]
  cases moves with
  | begin => exact .inl rfl
  | closeFresh => exact .inr ⟨rfl, rfl⟩
  | start begun => exact absurd fresh begun
  | work found works => exact absurd works.running (idle found)
  | quit _ found quits => exact absurd quits.running (idle found)
  | receive receives => simp [receives.consumer_eq] at fresh
  | closeReading reading => simp [reading] at fresh
  | stop leaving => simp [leaving] at fresh
  | cancel leaving => simp [leaving] at fresh
  | leave leaving => simp [leaving] at fresh

theorem Framed.moves (framed : before.Framed) (moves : before.Moves limits event after) :
    after.Framed := by
  have tidy := moves.forall_tasks (fun starts _ => starts.tidy) Task.Works.tidy Task.Quits.tidy framed.tidy
  have unbegun : before.consumer = .fresh → ∀ task ∈ before.tasks, task.phase.isRunning = false :=
    fun fresh task member => Task.isRunning_of_not_started (framed.unasked fresh task member)
  have still : before.consumer = .gone → False := fun gone => framed.not_moves gone moves
  cases moves with
  | start begun => exact ⟨fun fresh => absurd fresh begun, fun gone => (still gone).elim, tidy⟩
  | work found works =>
      have running := works.running
      refine ⟨fun fresh => ?_, fun gone => (still gone).elim, tidy⟩
      simp [unbegun fresh _ (List.mem_of_getElem? found)] at running
  | quit _ found quits =>
      have running := quits.running
      refine ⟨fun fresh => ?_, fun gone => (still gone).elim, tidy⟩
      simp [unbegun fresh _ (List.mem_of_getElem? found)] at running
  | receive receives =>
      have reading := receives.consumer_eq
      cases receives <;> exact ⟨by simp [reading], by simp [reading], tidy⟩
  | begin fresh =>
      refine ⟨fun unread => ?_, fun _ => unbegun fresh, tidy⟩
      simp only at unread
      split at unread <;> cases unread
  | closeFresh fresh => exact ⟨by simp, fun _ => unbegun fresh, tidy⟩
  | closeReading => exact ⟨by simp, by simp, tidy⟩
  | stop leaving => exact ⟨by simp [leaving], by simp [leaving], tidy⟩
  | cancel leaving => exact ⟨by simp [leaving], by simp [leaving], tidy⟩
  | leave _ _ idle => exact ⟨by simp, fun _ => by simpa [running] using idle, tidy⟩

/-- Nothing of the stream runs or is open, nothing can happen any more, and its consumer is told so. -/
structure AtRest [DecidableEq α] (limits : Limits) (scripts : List (Script α ε))
    (state : State α ε) : Prop where
  scripts_eq : state.tasks.map Task.script = scripts
  idle : ∀ task ∈ state.tasks, task.phase.isRunning = false
  closed : ∀ task ∈ state.tasks, task.Obtained → task.closed = task.script.closable
  final : ∀ event, state.step? limits event = none
  ended : state.next limits = (.ended, state)

theorem Framed.atRest [DecidableEq α] {scripts : List (Script α ε)} (framed : before.Framed)
    (sound : before.Sound scripts) (gone : before.consumer = .gone) :
    before.AtRest limits scripts where
  scripts_eq := sound.scripts_eq
  idle := framed.idle gone
  closed := by
    rintro task member ⟨started, accepted⟩
    have idle := framed.idle gone task member
    have tidy := framed.tidy task member
    obtain ⟨script, phase, pulls, closed⟩ := task
    cases phase with
    | waiting => cases started
    | «over» => exact tidy accepted
    | _ => cases idle
  final := by
    intro event
    cases taken : before.step? limits event with
    | none => rfl
    | some after => exact absurd (moves_of_step? taken) (framed.not_moves gone)
  ended := by simp [next, gone]

end State

variable [DecidableEq α] {limits : Limits} {scripts : List (Script α ε)} {trace : Trace α ε}

theorem Traced.framed (traced : Traced limits scripts trace) : trace.state.Framed := by
  induction traced with
  | initial => exact State.framed_ofScripts scripts
  | step _ steps ih => exact ih.moves steps.moves

/-- A stream that nobody asks for anything calls no scan. -/
theorem Traced.unstarted_of_unasked (traced : Traced limits scripts trace)
    (unasked : .begin ∉ trace.events) :
    (trace.state.consumer = .fresh ∨ trace.state.consumer = .gone) ∧
      ∀ task ∈ trace.state.tasks, task.started = false := by
  induction traced with
  | initial => exact ⟨.inl rfl, (State.framed_ofScripts scripts).unasked rfl⟩
  | step traced steps ih =>
      rw [steps.events_eq, List.mem_append, List.mem_singleton, not_or] at unasked
      obtain ⟨here, unstarted⟩ := ih unasked.1
      have fresh := here.resolve_right fun gone => traced.framed.not_moves gone steps.moves
      rcases traced.framed.moves_of_fresh fresh steps.moves with asked | ⟨gone, same⟩
      · exact absurd asked.symm unasked.2
      · exact ⟨.inr gone, same ▸ unstarted⟩

/-- A consumer that leaves is gone in the end: no worker keeps it waiting. -/
theorem Traced.inevitable_gone (traced : Traced limits scripts trace)
    (left : trace.state.consumer = .leaving ∨ trace.state.consumer = .gone) :
    Inevitable limits (fun final => Traced limits scripts final ∧ final.state.consumer = .gone)
      trace := by
  have inevitable := @inevitable_of_kept α ε limits trace _
    (fun trace => Traced limits scripts trace ∧
      (trace.state.consumer = .leaving ∨ trace.state.consumer = .gone))
    (fun trace => trace.state.consumer = .gone)
    (by
      rintro trace ⟨traced, left⟩ present
      obtain ⟨event, state, unclosed, taken, changed⟩ :=
        State.exists_step_of_leaving limits (left.resolve_right present)
      obtain ⟨after, steps, same⟩ := Trace.exists_steps_of_step? taken
      exact ⟨event, after, unclosed, steps, by rwa [same]⟩)
    (by
      rintro before event after ⟨traced, left⟩ - - steps
      exact ⟨traced.step steps, steps.moves.consumer_of_left left⟩)
    ⟨traced, left⟩
  exact inevitable.mono fun final met => ⟨met.1.1, met.2⟩

section Close

variable {state : State α ε}

theorem Reachable.attempt (reached : Reachable limits scripts state) (event : Event) :
    Reachable limits scripts (state.attempt limits event) := by
  cases taken : state.step? limits event with
  | none => simpa [State.attempt, taken] using reached
  | some after => simpa [State.attempt, taken] using reached.step event taken

/-- Closing a stream is one of its runs. -/
theorem Reachable.close (reached : Reachable limits scripts state) :
    Reachable limits scripts (state.close limits) := by
  have cancelled := ((reached.attempt .close).attempt .stop).attempt .cancel
  have drained : Reachable limits scripts
      (State.drain limits (((state.attempt limits .close).attempt limits .stop).attempt limits
        .cancel)) :=
    State.drain_keeps (fun {_ _ index} reached taken => Reachable.step (.quit index) reached taken)
      (fun {_ _ index} reached taken => Reachable.step (.work index) reached taken) cancelled
  exact drained.attempt .leave

/-- Closing a stream always comes to its end. -/
theorem State.gone_of_close (limits : Limits) (state : State α ε) :
    (state.close limits).consumer = .gone := by
  have leaves : ∀ state : State α ε, state.consumer = .gone →
      (state.leave limits).consumer = .gone := by
    intro state gone
    have stop : state.attempt limits .stop = state := by simp [attempt, step?, gone]
    have cancel : state.attempt limits .cancel = state := by simp [attempt, step?, gone]
    have drained := (drain_frame limits state).1.trans gone
    simp only [leave, stop, cancel]
    simp [attempt, step?, drained]
  cases consumer : state.consumer with
  | fresh => exact leaves _ (by simp [attempt, step?, consumer])
  | reading => exact gone_of_leave limits (by simp [attempt, step?, consumer])
  | leaving => exact gone_of_leave limits (by simp [attempt, step?, consumer])
  | gone => exact leaves _ (by simp [attempt, step?, consumer])

end Close

/-- When a stream is over, whichever way it ended, all its scans are closed and nothing runs or happens
any more. The stream gets there once its consumer leaves, closing it gets there from anywhere, only the
worker of a scan closes it, and a stream that was never asked for anything has called no scan. -/
theorem gone_at_rest (traced : Traced limits scripts trace) :
    (trace.state.consumer = .gone → trace.state.AtRest limits scripts) ∧
      (trace.state.consumer = .leaving →
        Inevitable limits (fun final => Traced limits scripts final ∧
          final.state.consumer = .gone) trace) ∧
      (Reachable limits scripts (trace.state.close limits) ∧
        (trace.state.close limits).AtRest limits scripts) ∧
      (∀ event after index, trace.Steps limits event after → event ≠ .work index →
        after.state.tasks[index]?.map Task.closed = trace.state.tasks[index]?.map Task.closed) ∧
      (.begin ∉ trace.events → ∀ task ∈ trace.state.tasks, task.started = false) := by
  have reached : Reachable limits scripts trace.state := reachable_iff_traced.mpr ⟨trace, traced, rfl⟩
  obtain ⟨closed, closing, same⟩ := reachable_iff_traced.mp reached.close
  refine ⟨traced.framed.atRest traced.sound, fun leaving => traced.inevitable_gone (.inl leaving),
    ⟨reached.close, ?_⟩, ?_, fun unasked => (traced.unstarted_of_unasked unasked).2⟩
  · rw [← same]
    exact closing.framed.atRest closing.sound (same ▸ State.gone_of_close limits trace.state)
  · intro event after index steps other
    exact steps.moves.closed_eq other

/-- Two scans and one worker, closed after the first item while the worker has the second in hand: the
scan that was called is closed, and the other one was never called. -/
theorem gone_at_rest_closed_early :
    let limits : Limits := ⟨1, 1⟩
    let scripts : List (Script Nat Nat) := [{ items := [1, 2] }, { items := [3] }]
    ∃ trace, Traced limits scripts trace ∧ trace.state.consumer = .gone ∧ trace.yielded = [1] ∧
      trace.state.AtRest limits scripts ∧
      trace.state.tasks.map Task.started = [true, false] ∧
      trace.state.tasks.map Task.closed = [true, false] := by
  intro limits scripts
  have move : ∀ (event : Event) {before : Trace Nat Nat} {state : State Nat Nat},
      Traced limits scripts before → event ≠ .receive →
        before.state.step? limits event = some state →
        Traced limits scripts ⟨before.events ++ [event], before.receipts, state⟩ :=
    fun _ _ _ traced silent taken => traced.step (.other silent taken)
  have asked := move .begin .initial (by simp) rfl
  have started := move (.start 0) asked (by simp) rfl
  have first := move (.work 0) started (by simp) rfl
  have second := move (.work 0) first (by simp) rfl
  have given := second.step (.receive rfl)
  have closing := move .close given (by simp) rfl
  have cancelled := move .cancel closing (by simp) rfl
  have dropped := move (.work 0) cancelled (by simp) rfl
  have stopped := move (.quit 0) dropped (by simp) rfl
  have ended := move (.work 0) stopped (by simp) rfl
  have gone := move .leave ended (by simp) rfl
  exact ⟨_, gone, rfl, rfl, (gone_at_rest gone).1 rfl, rfl, rfl⟩

end PathSearch.Merge
