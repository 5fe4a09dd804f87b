import PathSearch.Proofs.Merge.Trace

namespace PathSearch.Merge

/-! Whatever order the steps come in, the merge neither invents an item or a failure nor repeats an item. -/

variable {α ε : Type}

/-- What a worker still holds comes from its scan. -/
def Task.Sound (task : Task α ε) : Prop :=
  match task.phase with
  | .pulling rest => task.script.refusal = none ∧ rest <:+ task.script.items
  | .offering value rest => task.script.refusal = none ∧ value :: rest <:+ task.script.items
  | .reporting error _ => task.script.Raises error
  | _ => True

namespace Task

theorem Starts.script_eq {task next : Task α ε} (starts : task.Starts next) :
    next.script = task.script := by
  cases starts <;> rfl

theorem Works.script_eq {task next : Task α ε} {message : Option (Message α ε)}
    (works : task.Works message next) : next.script = task.script := by
  cases works <;> rfl

theorem Quits.script_eq {task next : Task α ε} (quits : task.Quits next) :
    next.script = task.script := by
  cases quits <;> rfl

theorem Starts.sound {task next : Task α ε} (starts : task.Starts next) : next.Sound := by
  cases starts with
  | called accepted => exact ⟨accepted, List.suffix_refl _⟩
  | refused refusal => exact .inl refusal

theorem Works.sound {task next : Task α ε} {message : Option (Message α ε)}
    (works : task.Works message next) (sound : task.Sound) : next.Sound := by
  cases works with
  | pulled => exact sound
  | exhausted => trivial
  | failed fails => exact .inr ⟨sound.1, fails⟩
  | offered => exact ⟨sound.1, (List.suffix_cons _ _).trans sound.2⟩
  | @reported _ _ called => cases called <;> trivial
  | finished => trivial
  | abandoned => trivial
  | concluded => trivial

theorem Quits.sound {task next : Task α ε} (quits : task.Quits next) : next.Sound := by
  cases quits with
  | offering => trivial
  | @reporting _ _ called => cases called <;> trivial
  | concluding => trivial

theorem Works.produces {task next : Task α ε} {value : α}
    (works : task.Works (some (.item value)) next) (sound : task.Sound) :
    task.script.Produces value := by
  cases works with
  | offered => exact ⟨sound.1, sound.2.subset (List.mem_cons_self ..)⟩

theorem Works.raises {task next : Task α ε} {error : ε}
    (works : task.Works (some (.failed error)) next) (sound : task.Sound) :
    task.script.Raises error := by
  cases works with
  | reported => exact sound

end Task

theorem map_script_set {tasks : List (Task α ε)} {index : Nat} {task next : Task α ε}
    (found : tasks[index]? = some task) (same : next.script = task.script) :
    (tasks.set index next).map Task.script = tasks.map Task.script := by
  obtain ⟨inside, rfl⟩ := List.getElem?_eq_some_iff.mp found
  rw [List.map_set, same, ← List.getElem_map Task.script (h := by simpa using inside),
    List.set_getElem_self]

/-- Everything in a state comes from the scans, and no item was given twice. -/
structure State.Sound (scripts : List (Script α ε)) (state : State α ε) : Prop where
  scripts_eq : state.tasks.map Task.script = scripts
  tasks : ∀ task ∈ state.tasks, task.Sound
  items : ∀ value, .item value ∈ state.queue → ∃ script ∈ scripts, script.Produces value
  failures : ∀ error, .failed error ∈ state.queue → ∃ script ∈ scripts, script.Raises error
  seen : ∀ value ∈ state.seen, ∃ script ∈ scripts, script.Produces value
  distinct : state.seen.Nodup

namespace State

variable {scripts : List (Script α ε)} {before after : State α ε}

theorem sound_ofScripts (scripts : List (Script α ε)) : (ofScripts scripts).Sound scripts where
  scripts_eq := by
    have same : Task.script ∘ Task.ofScript = (id : Script α ε → Script α ε) := rfl
    simp [ofScripts, same]
  tasks := by
    intro task member
    obtain ⟨script, -, rfl⟩ := List.mem_map.mp member
    trivial
  items := by simp [ofScripts]
  failures := by simp [ofScripts]
  seen := by simp [ofScripts]
  distinct := by simp [ofScripts]

theorem Sound.script_mem (sound : before.Sound scripts) {index : Nat} {task : Task α ε}
    (found : before.tasks[index]? = some task) : task.script ∈ scripts := by
  rw [← sound.scripts_eq]
  exact List.mem_map_of_mem (List.mem_of_getElem? found)

theorem Sound.setTask (sound : before.Sound scripts) {index : Nat} {task next : Task α ε}
    (found : before.tasks[index]? = some task) (same : next.script = task.script)
    (held : next.Sound) : (before.setTask index next).Sound scripts where
  scripts_eq := (map_script_set found same).trans sound.scripts_eq
  tasks := by
    intro other member
    rcases List.mem_or_eq_of_mem_set member with member | rfl
    · exact sound.tasks other member
    · exact held
  items := sound.items
  failures := sound.failures
  seen := sound.seen
  distinct := sound.distinct

theorem Sound.post (sound : before.Sound scripts) {index : Nat} {task next : Task α ε}
    {message : Option (Message α ε)} (found : before.tasks[index]? = some task)
    (works : task.Works message next) : (before.post message).Sound scripts := by
  have member := sound.script_mem found
  have held := sound.tasks task (List.mem_of_getElem? found)
  refine { sound with items := ?_, failures := ?_ }
  · intro value queued
    rcases List.mem_append.mp queued with queued | sent
    · exact sound.items value queued
    · rw [Option.mem_toList] at sent
      cases sent
      exact ⟨task.script, member, works.produces held⟩
  · intro error queued
    rcases List.mem_append.mp queued with queued | sent
    · exact sound.failures error queued
    · rw [Option.mem_toList] at sent
      cases sent
      exact ⟨task.script, member, works.raises held⟩

theorem Sound.take (sound : before.Sound scripts) {message : Message α ε}
    {rest : List (Message α ε)} (queue : before.queue = message :: rest) :
    State.Sound scripts { before with queue := rest } :=
  { sound with
    items := fun value queued => sound.items value (by simp [queue, queued])
    failures := fun error queued => sound.failures error (by simp [queue, queued]) }

theorem Sound.receives (sound : before.Sound scripts) {receipt : Receipt α ε}
    (receives : before.Receives after receipt) : after.Sound scripts := by
  cases receives with
  | repeated _ queue _ => exact sound.take queue
  | @fresh value rest _ queue unknown =>
      refine { sound.take queue with seen := ?_, distinct := ?_ }
      · intro given member
        rcases List.mem_append.mp member with member | single
        · exact sound.seen given member
        · cases List.mem_singleton.mp single
          exact sound.items value (by simp [queue])
      · rw [List.nodup_append]
        refine ⟨sound.distinct, by simp, ?_⟩
        intro given member other single same
        cases List.mem_singleton.mp single
        exact unknown (same ▸ member)
  | failed _ queue => exact { sound.take queue with }
  | last _ queue _ => exact { sound.take queue with }
  | done _ queue _ => exact { sound.take queue with }

theorem Sound.moves (sound : before.Sound scripts) {limits : Limits} {event : Event}
    (moves : before.Moves limits event after) : after.Sound scripts := by
  cases moves with
  | start _ _ _ found starts => exact sound.setTask found starts.script_eq starts.sound
  | work found works _ =>
      have held := sound.tasks _ (List.mem_of_getElem? found)
      exact (sound.post found works).setTask found works.script_eq (works.sound held)
  | quit _ found quits => exact sound.setTask found quits.script_eq quits.sound
  | receive receives => exact sound.receives receives
  | begin => exact { sound with }
  | closeFresh => exact { sound with }
  | closeReading => exact { sound with }
  | stop => exact { sound with }
  | cancel => exact { sound with }
  | leave => exact { sound with }

end State

variable [DecidableEq α] {limits : Limits} {scripts : List (Script α ε)} {trace : Trace α ε}

theorem Traced.sound (traced : Traced limits scripts trace) : trace.state.Sound scripts := by
  induction traced with
  | initial => exact State.sound_ofScripts scripts
  | step _ steps ih => exact ih.moves steps.moves

/-- The consumer was given what the merge remembers to have given. -/
theorem Traced.yielded_eq (traced : Traced limits scripts trace) :
    trace.yielded = trace.state.seen := by
  induction traced with
  | initial => rfl
  | step traced steps ih =>
      cases steps with
      | receive received =>
          have receives := State.receives_of_receive? received
          simp only [Trace.yielded, List.filterMap_append] at ih ⊢
          cases receives <;> simp [List.filterMap_cons, Receipt.value?, ih]
      | other silent taken =>
          cases State.moves_of_step? taken with
          | receive => exact absurd rfl silent
          | _ => exact ih

theorem Traced.raises_of_mem_failures (traced : Traced limits scripts trace) {error : ε}
    (given : error ∈ trace.failures) : ∃ script ∈ scripts, script.Raises error := by
  induction traced with
  | initial => simp [Trace.failures, Trace.initial] at given
  | step traced steps ih =>
      cases steps with
      | receive received =>
          have receives := State.receives_of_receive? received
          simp only [Trace.failures, List.filterMap_append, List.mem_append] at given
          rcases given with given | now
          · exact ih given
          · cases receives with
            | failed _ queue =>
                have same := List.mem_singleton.mp now
                exact traced.sound.failures error (by simp [queue, same])
            | repeated => simp [Receipt.error?] at now
            | fresh => simp [Receipt.error?] at now
            | last => simp [Receipt.error?] at now
            | done => simp [Receipt.error?] at now
      | other => exact ih given

end PathSearch.Merge
