namespace PathSearch.Merge

/-- A scan as the merge sees it: calling it may already fail; otherwise it gives its items and then
ends or fails. A closable scan wants to be closed once it has been called. -/
structure Script (α ε : Type) where
  refusal : Option ε := none
  items : List α
  failure : Option ε := none
  closable : Bool := true

/-- What a worker puts into the queue. -/
inductive Message (α ε : Type) where
  | item (value : α)
  | failed (error : ε)
  | done

/-- How far the worker of a scan has come. -/
inductive Phase (α ε : Type) where
  | waiting
  | pulling (rest : List α)
  | offering (value : α) (rest : List α)
  | reporting (error : ε) (called : Bool)
  | closing (complete : Bool)
  | concluding
  | over

/-- A scan and its worker; `pulls` counts how often the scan was asked for its next item. -/
structure Task (α ε : Type) where
  script : Script α ε
  phase : Phase α ε
  pulls : Nat
  closed : Bool

/-- Where the consumer is: it has asked for nothing yet, it reads, it waits for the workers to stop,
or the stream has ended. -/
inductive Consumer where
  | fresh
  | reading
  | leaving
  | gone
  deriving DecidableEq, Repr

/-- How many scans may run at a time, and how many messages the queue holds. -/
structure Limits where
  workers : Nat
  capacity : Nat

/-- A state of the merge. `seen` holds what was given to the consumer, earliest first; `remaining`
counts the scans whose end the consumer has not been told of. -/
structure State (α ε : Type) where
  tasks : List (Task α ε)
  queue : List (Message α ε)
  stopped : Bool
  cancelled : Bool
  remaining : Nat
  seen : List α
  consumer : Consumer

variable {α ε : Type}

namespace Phase

/-- The worker holds one of the places for running scans. -/
def isRunning : Phase α ε → Bool
  | .waiting => false
  | .over => false
  | _ => true

def isWaiting : Phase α ε → Bool
  | .waiting => true
  | _ => false

end Phase

namespace Task

def ofScript (script : Script α ε) : Task α ε := ⟨script, .waiting, 0, false⟩

def started (task : Task α ε) : Bool := !task.phase.isWaiting

end Task

namespace State

def ofScripts (scripts : List (Script α ε)) : State α ε :=
  ⟨scripts.map .ofScript, [], false, false, scripts.length, [], .fresh⟩

def running (state : State α ε) : Nat := state.tasks.countP fun task => task.phase.isRunning

def setTask (state : State α ε) (index : Nat) (task : Task α ε) : State α ε :=
  { state with tasks := state.tasks.set index task }

def send (state : State α ε) (message : Message α ε) : State α ε :=
  { state with queue := state.queue ++ [message] }

end State

end PathSearch.Merge
