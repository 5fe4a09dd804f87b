import PathSearch.Proofs.Merge.Move

namespace PathSearch.Merge

/-!
Runs of the merge, with the steps taken and what the consumer was given in them. The order of steps is
free, so a statement about all traces is one about all schedules.
-/

variable {α ε : Type}

namespace Script

/-- The scan gives the item, provided that it can be called. -/
def Produces (script : Script α ε) (value : α) : Prop :=
  script.refusal = none ∧ value ∈ script.items

/-- The scan fails with the error, when it is called or after its last item. -/
def Raises (script : Script α ε) (error : ε) : Prop :=
  script.refusal = some error ∨ script.refusal = none ∧ script.failure = some error

def Succeeds (script : Script α ε) : Prop := script.refusal = none ∧ script.failure = none

theorem succeeds_iff {script : Script α ε} :
    script.Succeeds ↔ ∀ error, ¬ script.Raises error := by
  cases refusal : script.refusal with
  | some error => simp [Succeeds, Raises, refusal]
  | none =>
      cases failure : script.failure with
      | none => simp [Succeeds, Raises, refusal, failure]
      | some error => simp [Succeeds, Raises, refusal, failure]

end Script

namespace Receipt

def value? : Receipt α ε → Option α
  | .fresh value => some value
  | _ => none

def error? : Receipt α ε → Option ε
  | .failed error => some error
  | _ => none

end Receipt

structure Trace (α ε : Type) where
  events : List Event
  receipts : List (Receipt α ε)
  state : State α ε

namespace Trace

def initial (scripts : List (Script α ε)) : Trace α ε := ⟨[], [], .ofScripts scripts⟩

/-- The items given to the consumer, earliest first. -/
def yielded (trace : Trace α ε) : List α := trace.receipts.filterMap Receipt.value?

/-- The failures given to the consumer. -/
def failures (trace : Trace α ε) : List ε := trace.receipts.filterMap Receipt.error?

def Closed (trace : Trace α ε) : Prop := Event.close ∈ trace.events

/-- The stream is over, and neither its consumer nor a failing scan has ended it. -/
def EndsNormally (trace : Trace α ε) : Prop :=
  trace.state.consumer = .gone ∧ ¬ trace.Closed ∧ trace.failures = []

variable [DecidableEq α]

inductive Steps (limits : Limits) (before : Trace α ε) : Event → Trace α ε → Prop where
  | receive {state : State α ε} {receipt : Receipt α ε}
      (received : before.state.receive? = some (state, receipt)) :
      Steps limits before .receive
        ⟨before.events ++ [.receive], before.receipts ++ [receipt], state⟩
  | other {event : Event} {state : State α ε} (silent : event ≠ .receive)
      (taken : before.state.step? limits event = some state) :
      Steps limits before event ⟨before.events ++ [event], before.receipts, state⟩

theorem Steps.state_step? {limits : Limits} {before after : Trace α ε} {event : Event}
    (steps : before.Steps limits event after) :
    before.state.step? limits event = some after.state := by
  cases steps with
  | receive received => simp [State.step?, received]
  | other _ taken => exact taken

theorem Steps.moves {limits : Limits} {before after : Trace α ε} {event : Event}
    (steps : before.Steps limits event after) : before.state.Moves limits event after.state :=
  State.moves_of_step? steps.state_step?

theorem Steps.events_eq {limits : Limits} {before after : Trace α ε} {event : Event}
    (steps : before.Steps limits event after) : after.events = before.events ++ [event] := by
  cases steps <;> rfl

theorem exists_steps_of_step? {limits : Limits} {before : Trace α ε} {event : Event}
    {state : State α ε} (taken : before.state.step? limits event = some state) :
    ∃ after, before.Steps limits event after ∧ after.state = state := by
  by_cases receiving : event = .receive
  · subst receiving
    obtain ⟨⟨reached, receipt⟩, received, rfl⟩ := Option.map_eq_some_iff.mp taken
    exact ⟨_, .receive received, rfl⟩
  · exact ⟨_, .other receiving taken, rfl⟩

end Trace

variable [DecidableEq α]

/-- The traces of the merge of some scans, one for each order of possible steps. -/
inductive Traced (limits : Limits) (scripts : List (Script α ε)) : Trace α ε → Prop where
  | initial : Traced limits scripts (.initial scripts)
  | step {before after : Trace α ε} {event : Event} (traced : Traced limits scripts before)
      (steps : before.Steps limits event after) : Traced limits scripts after

theorem reachable_iff_traced {limits : Limits} {scripts : List (Script α ε)} {state : State α ε} :
    Reachable limits scripts state ↔ ∃ trace, Traced limits scripts trace ∧ trace.state = state := by
  constructor
  · intro reached
    induction reached with
    | initial => exact ⟨_, .initial, rfl⟩
    | step event _ taken ih =>
        obtain ⟨before, traced, rfl⟩ := ih
        obtain ⟨after, steps, same⟩ := Trace.exists_steps_of_step? taken
        exact ⟨after, traced.step steps, same⟩
  · intro found
    obtain ⟨trace, traced, rfl⟩ := found
    induction traced with
    | initial => exact .initial
    | step traced steps ih => exact ih.step _ steps.state_step?

/-- However the merge goes on from a trace, short of being closed, it comes to one that meets the goal.
Steps that change nothing are not looked at. -/
inductive Inevitable (limits : Limits) (goal : Trace α ε → Prop) : Trace α ε → Prop where
  | reached {trace : Trace α ε} (met : goal trace) : Inevitable limits goal trace
  | ahead {trace : Trace α ε}
      (possible : ∃ event after, event ≠ .close ∧ trace.Steps limits event after ∧
        after.state ≠ trace.state)
      (always : ∀ event after, event ≠ .close → trace.Steps limits event after →
        after.state ≠ trace.state → Inevitable limits goal after) : Inevitable limits goal trace

end PathSearch.Merge
