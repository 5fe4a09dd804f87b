import PathSearch.Proofs.Merge.Ending

namespace PathSearch.Merge

/-! A consumer that waits for a message gets one: the merge cannot get stuck, and it cannot work forever
without sending. -/

variable {α ε : Type} [DecidableEq α] {limits : Limits} {scripts : List (Script α ε)}
  {trace : Trace α ε}

omit [DecidableEq α] in
/-- With nothing in the queue of a stream that is read, only workers do anything. -/
theorem State.Moves.reading_of_empty {before after : State α ε} {event : Event}
    (moves : before.Moves limits event after) (unclosed : event ≠ .close)
    (reading : before.consumer = .reading) (live : before.stopped = false)
    (empty : before.queue = []) : after.consumer = .reading := by
  cases moves with
  | start => exact reading
  | work => exact reading
  | quit stopped => simp [live] at stopped
  | receive receives => cases receives <;> simp [empty] at *
  | begin fresh => simp [reading] at fresh
  | closeFresh => exact absurd rfl unclosed
  | closeReading => exact absurd rfl unclosed
  | stop leaving => simp [reading] at leaving
  | cancel leaving => simp [reading] at leaving
  | leave leaving => simp [reading] at leaving

theorem Traced.inevitable_message (traced : Traced limits scripts trace)
    (workers : 0 < limits.workers) (capacity : 0 < limits.capacity)
    (reading : trace.state.consumer = .reading) :
    Inevitable limits (fun final => final.state.consumer = .reading ∧ final.state.queue ≠ [])
      trace := by
  have inevitable := @inevitable_of_kept α ε limits trace _
    (fun trace => Traced limits scripts trace ∧ trace.state.consumer = .reading)
    (fun trace => trace.state.queue ≠ [])
    (by
      rintro trace ⟨traced, reading⟩ -
      exact traced.exists_steps workers capacity (by simp [reading]))
    (by
      rintro before event after ⟨traced, reading⟩ unsent unclosed steps
      have live := (traced.active_of_here (.inr reading)).stopped
      have empty := Classical.not_not.mp unsent
      exact ⟨traced.step steps, steps.moves.reading_of_empty unclosed reading live empty⟩)
    ⟨traced, reading⟩
  exact inevitable.mono fun final met => ⟨met.1.2, met.2⟩

/-- While the consumer waits, a message is there, or a scan that was called can go on, or a free worker
can call a scan that waits; and whichever of these happen, a message comes. -/
theorem waiting_is_served (workers : 0 < limits.workers) (capacity : 0 < limits.capacity)
    {state : State α ε} (reached : Reachable limits scripts state)
    (waiting : state.consumer = .reading) :
    state.Moving limits ∧
      ∀ trace, Traced limits scripts trace → trace.state = state →
        Inevitable limits (fun final => final.state.consumer = .reading ∧ final.state.queue ≠ [])
          trace := by
  obtain ⟨trace, traced, rfl⟩ := reachable_iff_traced.mp reached
  refine ⟨traced.moving workers capacity waiting, ?_⟩
  intro other reaches same
  exact reaches.inevitable_message workers capacity (same ▸ waiting)

/-- Three scans, one of which fails when it is called, and one worker for all of them: when the consumer
begins to wait nothing is in the queue, and a message comes all the same. -/
theorem waiting_is_served_one_worker :
    let limits : Limits := ⟨1, 1⟩
    let scripts : List (Script Nat Nat) :=
      [{ items := [1, 2] }, { refusal := some 0, items := [] }, { items := [2] }]
    let state : State Nat Nat := { State.ofScripts scripts with consumer := .reading }
    (0 < limits.workers ∧ 0 < limits.capacity) ∧ Reachable limits scripts state ∧
      state.queue = [] ∧ state.Moving limits := by
  intro limits scripts state
  have reached : Reachable limits scripts state := .step .begin .initial rfl
  exact ⟨by decide, reached, rfl,
    (waiting_is_served (by decide : 0 < limits.workers) (by decide) reached rfl).1⟩

end PathSearch.Merge
