import PathSearch.Proofs.Merge.Sound

namespace PathSearch.Merge

/-!
While its consumer reads, the merge balances: the workers that have sent their last message, the last
messages sent, and the scans whose end is not known yet are counted against each other. From the
balance, a normal end is known to come after every item.
-/

variable {α ε : Type}

/-- A message after which its worker sends nothing more. -/
def Message.isFinal : Message α ε → Bool
  | .item _ => false
  | _ => true

namespace Task

/-- The worker has sent its last message. -/
def isSettled (task : Task α ε) : Bool :=
  match task.phase with
  | .closing false => true
  | .over => true
  | _ => false

/-- The scan has given its last item without failing, and all its items were sent. -/
def Delivered (sent : List (Message α ε)) (task : Task α ε) : Prop :=
  task.script.Succeeds ∧ task.pulls = task.script.items.length + 1 ∧
    ∀ value ∈ task.script.items, .item value ∈ sent

/-- The scan gave all its items, did not fail, and was closed if it wants to be. -/
def RanToEnd (task : Task α ε) : Prop :=
  task.phase = .over ∧ task.script.Succeeds ∧ task.pulls = task.script.items.length + 1 ∧
    task.closed = task.script.closable

/-- The messages sent by all workers hold what this one has pulled. -/
def Accounted (sent : List (Message α ε)) (task : Task α ε) : Prop :=
  match task.phase with
  | .waiting => task.pulls = 0
  | .pulling rest => ∃ given, task.script.items = given ++ rest ∧ task.pulls = given.length ∧
      ∀ value ∈ given, .item value ∈ sent
  | .offering value rest => ∃ given, task.script.items = given ++ value :: rest ∧
      task.pulls = given.length + 1 ∧ ∀ value ∈ given, .item value ∈ sent
  | .reporting _ _ => True
  | .closing true => task.Delivered sent
  | .concluding => task.Delivered sent ∧ task.closed = task.script.closable
  | .closing false => ∃ error, .failed error ∈ sent
  | .over => task.Delivered sent ∧ task.closed = task.script.closable ∨ ∃ error, .failed error ∈ sent

theorem Delivered.append {sent : List (Message α ε)} {task : Task α ε}
    (delivered : task.Delivered sent) (more : List (Message α ε)) :
    task.Delivered (sent ++ more) :=
  ⟨delivered.1, delivered.2.1, fun value member =>
    List.mem_append_left _ (delivered.2.2 value member)⟩

theorem Accounted.append {sent : List (Message α ε)} {task : Task α ε}
    (accounted : task.Accounted sent) (more : List (Message α ε)) :
    task.Accounted (sent ++ more) := by
  obtain ⟨script, phase, pulls, closed⟩ := task
  have keep : ∀ {values : List α}, (∀ value ∈ values, Message.item value ∈ sent) →
      ∀ value ∈ values, Message.item value ∈ sent ++ more :=
    fun held value member => List.mem_append_left _ (held value member)
  cases phase with
  | waiting => exact accounted
  | pulling rest =>
      obtain ⟨given, split, pulled, held⟩ := accounted
      exact ⟨given, split, pulled, keep held⟩
  | offering value rest =>
      obtain ⟨given, split, pulled, held⟩ := accounted
      exact ⟨given, split, pulled, keep held⟩
  | reporting => trivial
  | closing complete =>
      cases complete with
      | true => exact Delivered.append accounted more
      | false =>
          obtain ⟨error, member⟩ := accounted
          exact ⟨error, List.mem_append_left _ member⟩
  | concluding => exact ⟨accounted.1.append more, accounted.2⟩
  | «over» =>
      rcases accounted with delivered | ⟨error, member⟩
      · exact .inl ⟨delivered.1.append more, delivered.2⟩
      · exact .inr ⟨error, List.mem_append_left _ member⟩

theorem Starts.accounted {task next : Task α ε} {sent : List (Message α ε)}
    (starts : task.Starts next) (accounted : task.Accounted sent) : next.Accounted sent := by
  cases starts with
  | called => exact ⟨[], rfl, accounted, by simp⟩
  | refused => trivial

theorem Works.accounted {task next : Task α ε} {message : Option (Message α ε)}
    {sent : List (Message α ε)} (works : task.Works message next) (sound : task.Sound)
    (accounted : task.Accounted sent) : next.Accounted (sent ++ message.toList) := by
  cases works with
  | pulled =>
      obtain ⟨given, split, pulled, held⟩ := accounted
      exact ⟨given, split, congrArg (· + 1) pulled, by simpa using held⟩
  | exhausted ends =>
      obtain ⟨given, split, pulled, held⟩ := accounted
      simp only [List.append_nil] at split pulled
      subst split
      exact ⟨⟨sound.1, ends⟩, congrArg (· + 1) pulled, by simpa using held⟩
  | failed => trivial
  | @offered _ value _ =>
      obtain ⟨given, split, pulled, held⟩ := accounted
      refine ⟨given ++ [value], ?_, ?_, ?_⟩
      · rw [split]
        simp
      · simpa using pulled
      · intro other member
        rcases List.mem_append.mp member with member | single
        · exact List.mem_append_left _ (held other member)
        · cases List.mem_singleton.mp single
          simp
  | @reported _ error called =>
      cases called with
      | true => exact ⟨error, by simp⟩
      | false => exact .inr ⟨error, by simp⟩
  | finished => exact ⟨Delivered.append accounted _, rfl⟩
  | abandoned =>
      obtain ⟨error, member⟩ := accounted
      exact .inr ⟨error, List.mem_append_left _ member⟩
  | concluded => exact .inl ⟨accounted.1.append _, accounted.2⟩

theorem Starts.isSettled_eq {task next : Task α ε} (starts : task.Starts next) :
    next.isSettled = task.isSettled := by
  cases starts <;> rfl

/-- A worker sends its last message exactly when it becomes settled. -/
theorem Works.settles {task next : Task α ε} {message : Option (Message α ε)}
    (works : task.Works message next) :
    next.isSettled.toNat = task.isSettled.toNat + message.toList.countP Message.isFinal := by
  cases works with
  | @reported _ _ called => cases called <;> rfl
  | _ => rfl

theorem Works.not_settled_of_item {task next : Task α ε} {value : α}
    (works : task.Works (some (.item value)) next) : task.isSettled = false := by
  cases works
  rfl

/-- A settled worker whose scan has not failed sent all its items. -/
theorem Accounted.ranToEnd {task : Task α ε} {sent : List (Message α ε)}
    (accounted : task.Accounted sent) (settled : task.isSettled = true)
    (unfailed : ∀ error, .failed error ∉ sent) : task.RanToEnd ∧ task.Delivered sent := by
  obtain ⟨script, phase, pulls, closed⟩ := task
  cases phase with
  | closing complete =>
      cases complete with
      | true => simp [isSettled] at settled
      | false =>
          obtain ⟨error, failed⟩ := accounted
          exact absurd failed (unfailed error)
  | «over» =>
      rcases accounted with ⟨delivered, closable⟩ | ⟨error, failed⟩
      · exact ⟨⟨rfl, delivered.1, delivered.2.1, closable⟩, delivered⟩
      · exact absurd failed (unfailed error)
  | _ => simp [isSettled] at settled

end Task

theorem countP_set_add {tasks : List (Task α ε)} {index : Nat} {task : Task α ε}
    (found : tasks[index]? = some task) (next : Task α ε) (test : Task α ε → Bool) :
    (tasks.set index next).countP test + (test task).toNat =
      tasks.countP test + (test next).toNat := by
  induction tasks generalizing index with
  | nil => simp at found
  | cons first rest ih =>
      cases index with
      | zero =>
          simp only [List.getElem?_cons_zero, Option.some.injEq] at found
          subst found
          simp only [List.set_cons_zero, List.countP_cons]
          cases test first <;> cases test next <;> simp
      | succ index =>
          have inner := ih (by simpa using found)
          simp only [List.set_cons_succ, List.countP_cons]
          omega

namespace State

/-- The balance of a state after the messages `received` were taken out of the queue. -/
structure Balanced (received : List (Message α ε)) (state : State α ε) : Prop where
  tasks : ∀ task ∈ state.tasks, task.Accounted (received ++ state.queue)
  settled : state.tasks.countP Task.isSettled = (received ++ state.queue).countP Message.isFinal
  early : ∀ earlier value later, received ++ state.queue = earlier ++ .item value :: later →
    earlier.countP Message.isFinal < state.tasks.length
  seen : ∀ value, .item value ∈ received → value ∈ state.seen
  remaining : state.remaining + received.countP Message.isFinal = state.tasks.length
  unfailed : ∀ error, .failed error ∉ received

/-- Every scan ran to its end, and the consumer was given all their items. -/
structure Complete (scripts : List (Script α ε)) (state : State α ε) : Prop where
  tasks : ∀ task ∈ state.tasks, task.RanToEnd
  seen : ∀ script ∈ scripts, ∀ value ∈ script.items, value ∈ state.seen

variable {scripts : List (Script α ε)} {received : List (Message α ε)} {before after : State α ε}

theorem balanced_ofScripts (scripts : List (Script α ε)) : (ofScripts scripts).Balanced [] where
  tasks := by
    intro task member
    obtain ⟨script, -, rfl⟩ := List.mem_map.mp member
    rfl
  settled := by
    have waiting : Task.isSettled ∘ Task.ofScript = fun _ : Script α ε => false := rfl
    simp [ofScripts, List.countP_map, waiting]
  early := by simp [ofScripts]
  seen := by simp
  remaining := by simp [ofScripts]
  unfailed := by simp

theorem Balanced.start (balanced : before.Balanced received) {index : Nat}
    {task next : Task α ε} (found : before.tasks[index]? = some task) (starts : task.Starts next) :
    (before.setTask index next).Balanced received where
  tasks := by
    intro other member
    rcases List.mem_or_eq_of_mem_set member with member | rfl
    · exact balanced.tasks other member
    · exact starts.accounted (balanced.tasks task (List.mem_of_getElem? found))
  settled := by
    have count := countP_set_add found next Task.isSettled
    rw [starts.isSettled_eq] at count
    exact (Nat.add_right_cancel count).trans balanced.settled
  early := by simpa [setTask] using balanced.early
  seen := balanced.seen
  remaining := by simpa [setTask] using balanced.remaining
  unfailed := balanced.unfailed

theorem Balanced.work (balanced : before.Balanced received) (sound : before.Sound scripts)
    {index : Nat} {task next : Task α ε} {message : Option (Message α ε)}
    (found : before.tasks[index]? = some task) (works : task.Works message next) :
    ((before.post message).setTask index next).Balanced received where
  tasks := by
    intro other member
    simp only [setTask, post, ← List.append_assoc]
    rcases List.mem_or_eq_of_mem_set member with member | rfl
    · exact (balanced.tasks other member).append _
    · have held := List.mem_of_getElem? found
      exact works.accounted (sound.tasks task held) (balanced.tasks task held)
  settled := by
    have count := countP_set_add found next Task.isSettled
    have step := works.settles
    have old := balanced.settled
    simp only [setTask, post, ← List.append_assoc, List.countP_append] at old ⊢
    omega
  early := by
    intro earlier value later split
    simp only [setTask, post, List.length_set, ← List.append_assoc] at split ⊢
    cases message with
    | none => exact balanced.early earlier value later (by simpa using split)
    | some message =>
        rcases List.eq_nil_or_concat later with rfl | ⟨inner, last, rfl⟩
        · -- The item is the one just sent, and its worker is not settled.
          obtain ⟨same, only⟩ := List.append_inj' split rfl
          simp only [Option.toList_some, List.cons.injEq, and_true] at only
          subst only
          have unsettled := works.not_settled_of_item
          have notAll : ¬ before.tasks.countP Task.isSettled = before.tasks.length := by
            rw [List.countP_eq_length]
            intro all
            simpa [unsettled] using all task (List.mem_of_getElem? found)
          have bound := List.countP_le_length (p := Task.isSettled) (l := before.tasks)
          have old := balanced.settled
          rw [← same]
          omega
        · refine balanced.early earlier value inner ?_
          have tail : received ++ before.queue ++ [message] =
              (earlier ++ .item value :: inner) ++ [last] := by simpa using split
          exact (List.append_inj' tail rfl).1
  seen := balanced.seen
  remaining := by simpa [setTask, post] using balanced.remaining
  unfailed := balanced.unfailed

theorem Balanced.take (balanced : before.Balanced received) {message : Message α ε}
    {rest : List (Message α ε)} (queue : before.queue = message :: rest) (seen : List α)
    (remaining : Nat) (kept : ∀ value ∈ before.seen, value ∈ seen)
    (remembered : ∀ value, message = .item value → value ∈ seen)
    (counted : remaining + [message].countP Message.isFinal = before.remaining)
    (unfailed : ∀ error, message ≠ .failed error) (consumer : Consumer) :
    Balanced (received ++ [message])
      { before with queue := rest, seen := seen, remaining := remaining, consumer := consumer } := by
  have sent : received ++ [message] ++ rest = received ++ before.queue := by simp [queue]
  refine ⟨?_, ?_, ?_, ?_, ?_, ?_⟩
  · simpa only [sent] using balanced.tasks
  · simpa only [sent] using balanced.settled
  · simpa only [sent] using balanced.early
  · intro value member
    rcases List.mem_append.mp member with member | single
    · exact kept value (balanced.seen value member)
    · exact remembered value (List.mem_singleton.mp single).symm
  · have old := balanced.remaining
    rw [List.countP_append]
    simp only
    omega
  · intro error member
    rcases List.mem_append.mp member with member | single
    · exact balanced.unfailed error member
    · exact unfailed error (List.mem_singleton.mp single).symm

/-- With no scan left to wait for, nothing is left in the queue and no scan has failed. -/
theorem Balanced.complete (balanced : before.Balanced received) (sound : before.Sound scripts)
    (waited : before.remaining = 0) : before.Complete scripts := by
  have allReceived : received.countP Message.isFinal = before.tasks.length := by
    simpa [waited] using balanced.remaining
  have bound := List.countP_le_length (p := Task.isSettled) (l := before.tasks)
  have settled := balanced.settled
  rw [List.countP_append] at settled
  have noneQueued : before.queue.countP Message.isFinal = 0 := by omega
  have allSettled : ∀ task ∈ before.tasks, task.isSettled = true :=
    List.countP_eq_length.mp (by omega)
  have unfailed : ∀ error, Message.failed error ∉ received ++ before.queue := by
    intro error member
    rcases List.mem_append.mp member with member | queued
    · exact balanced.unfailed error member
    · exact absurd rfl (List.countP_eq_zero.mp noneQueued _ queued)
  have itemsSeen : ∀ value, Message.item value ∈ received ++ before.queue → value ∈ before.seen := by
    intro value member
    rcases List.mem_append.mp member with member | queued
    · exact balanced.seen value member
    · obtain ⟨front, back, split⟩ := List.append_of_mem queued
      have early := balanced.early (received ++ front) value back (by simp [split])
      rw [List.countP_append] at early
      omega
  have delivered := fun task member =>
    (balanced.tasks task member).ranToEnd (allSettled task member) unfailed
  refine ⟨fun task member => (delivered task member).1, ?_⟩
  intro script member value given
  rw [← sound.scripts_eq] at member
  obtain ⟨task, held, rfl⟩ := List.mem_map.mp member
  exact itemsSeen value ((delivered task held).2.2.2 value given)

theorem Complete.moves (complete : before.Complete scripts) {limits : Limits} {event : Event}
    (ended : before.consumer = .leaving ∨ before.consumer = .gone)
    (moves : before.Moves limits event after) : after.Complete scripts := by
  have finished : ∀ {index : Nat} {task : Task α ε}, before.tasks[index]? = some task →
      task.phase = .over := fun found => (complete.tasks _ (List.mem_of_getElem? found)).1
  cases moves with
  | start _ _ _ found starts => cases starts <;> cases finished found
  | work found works => cases works <;> cases finished found
  | quit _ found quits => cases quits <;> cases finished found
  | receive receives => simp [receives.consumer_eq] at ended
  | begin fresh => simp [fresh] at ended
  | closeFresh => exact ⟨complete.tasks, complete.seen⟩
  | closeReading => exact ⟨complete.tasks, complete.seen⟩
  | stop => exact ⟨complete.tasks, complete.seen⟩
  | cancel => exact ⟨complete.tasks, complete.seen⟩
  | leave => exact ⟨complete.tasks, complete.seen⟩

end State

end PathSearch.Merge
