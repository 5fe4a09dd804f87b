import PathSearch.Proofs.Merge.Schedule
import PathSearch.Proofs.Path.Order

namespace PathSearch.Merge

/-!
What the merge delivers, for every order of steps: only items of the scans and none of them twice, all of
them when it ends normally, and a failure instead of a normal end when a scan fails.
-/

section Delivery

variable {α ε : Type} [DecidableEq α] {limits : Limits} {scripts : List (Script α ε)}
  {trace : Trace α ε}

/-- Every scan was read to its end, and their items are what the consumer was given. -/
structure Trace.Exhausts (scripts : List (Script α ε)) (trace : Trace α ε) : Prop where
  scripts_eq : trace.state.tasks.map Task.script = scripts
  tasks : ∀ task ∈ trace.state.tasks, task.RanToEnd
  succeeds : ∀ script ∈ scripts, script.Succeeds
  mem_iff : ∀ value, value ∈ trace.yielded ↔ ∃ script ∈ scripts, value ∈ script.items

/-- Nothing that the consumer was given is invented or repeated, and a normal end is one after
everything. -/
structure Trace.Faithful (scripts : List (Script α ε)) (trace : Trace α ε) : Prop where
  distinct : trace.yielded.Nodup
  produced : ∀ value ∈ trace.yielded, ∃ script ∈ scripts, script.Produces value
  raised : ∀ error ∈ trace.failures, ∃ script ∈ scripts, script.Raises error
  exhausts : trace.EndsNormally → trace.Exhausts scripts

theorem Traced.complete_of_endsNormally (traced : Traced limits scripts trace)
    (ends : trace.EndsNormally) : trace.state.Complete scripts := by
  obtain ⟨gone, unclosed, unfailed⟩ := ends
  rcases traced.ended_of_gone gone with closed | ⟨error, failed⟩ | ⟨-, complete⟩
  · exact absurd closed unclosed
  · simp [unfailed] at failed
  · exact complete

theorem Traced.exhausts (traced : Traced limits scripts trace) (ends : trace.EndsNormally) :
    trace.Exhausts scripts where
  scripts_eq := traced.sound.scripts_eq
  tasks := (traced.complete_of_endsNormally ends).tasks
  succeeds := by
    intro script member
    rw [← traced.sound.scripts_eq] at member
    obtain ⟨task, inside, rfl⟩ := List.mem_map.mp member
    exact ((traced.complete_of_endsNormally ends).tasks task inside).2.1
  mem_iff := by
    intro value
    rw [traced.yielded_eq]
    constructor
    · intro given
      obtain ⟨script, member, -, produced⟩ := traced.sound.seen value given
      exact ⟨script, member, produced⟩
    · intro found
      obtain ⟨script, member, produced⟩ := found
      exact (traced.complete_of_endsNormally ends).seen script member value produced

theorem Traced.faithful (traced : Traced limits scripts trace) : trace.Faithful scripts where
  distinct := by
    rw [traced.yielded_eq]
    exact traced.sound.distinct
  produced := by
    rw [traced.yielded_eq]
    exact traced.sound.seen
  raised := fun _ given => traced.raises_of_mem_failures given
  exhausts := traced.exhausts

/-- A failing scan leaves no normal end. -/
theorem Traced.not_endsNormally (traced : Traced limits scripts trace) {script : Script α ε}
    (member : script ∈ scripts) {error : ε} (raises : script.Raises error) :
    ¬ trace.EndsNormally := by
  intro ends
  have succeeds := (traced.exhausts ends).succeeds script member
  exact Script.succeeds_iff.mp succeeds error raises

theorem Traced.inevitable_failure (traced : Traced limits scripts trace)
    (workers : 0 < limits.workers) (capacity : 0 < limits.capacity) (unclosed : ¬ trace.Closed)
    {script : Script α ε} (member : script ∈ scripts) {error : ε} (raises : script.Raises error) :
    Inevitable limits (fun final => final.state.consumer = .gone ∧
      ∃ given, final.failures = [given] ∧ ∃ script ∈ scripts, script.Raises given) trace := by
  refine (traced.inevitable_end workers capacity unclosed).mono ?_
  rintro final ⟨reached, clear, gone⟩
  refine ⟨gone, ?_⟩
  rcases reached.ended_of_gone gone with closed | ⟨given, failed⟩ | ⟨unfailed, -⟩
  · exact absurd closed clear
  · exact ⟨given, failed, reached.raises_of_mem_failures (by simp [failed])⟩
  · exact absurd ⟨gone, clear, unfailed⟩ (reached.not_endsNormally member raises)

theorem Traced.endsNormally_of_succeeds (traced : Traced limits scripts trace)
    (succeeds : ∀ script ∈ scripts, script.Succeeds) (unclosed : ¬ trace.Closed)
    (gone : trace.state.consumer = .gone) : trace.EndsNormally := by
  refine ⟨gone, unclosed, List.eq_nil_iff_forall_not_mem.mpr ?_⟩
  intro error given
  obtain ⟨script, member, raises⟩ := traced.raises_of_mem_failures given
  exact Script.succeeds_iff.mp (succeeds script member) error raises

theorem Traced.inevitable_endsNormally (traced : Traced limits scripts trace)
    (workers : 0 < limits.workers) (capacity : 0 < limits.capacity) (unclosed : ¬ trace.Closed)
    (succeeds : ∀ script ∈ scripts, script.Succeeds) :
    Inevitable limits Trace.EndsNormally trace := by
  refine (traced.inevitable_end workers capacity unclosed).mono ?_
  rintro final ⟨reached, clear, gone⟩
  exact reached.endsNormally_of_succeeds succeeds clear gone

end Delivery

section Sorted

variable {ε : Type} {limits : Limits} {scripts : List (Script Path ε)}

theorem Trace.Exhausts.sort_eq {first second : Trace Path ε} (exhausts : first.Exhausts scripts)
    (others : second.Exhausts scripts) (distinct : first.yielded.Nodup)
    (othersDistinct : second.yielded.Nodup) :
    Path.sort first.yielded = Path.sort second.yielded := by
  refine Path.sort_eq_of_mem_iff distinct othersDistinct ?_
  intro path
  rw [exhausts.mem_iff, others.mem_iff]

/-- When no scan fails, all schedules sort to the same list, the one that collecting gives. -/
theorem Traced.sort_yielded_eq {trace : Trace Path ε} (traced : Traced limits scripts trace)
    (workers : 0 < limits.workers) (capacity : 0 < limits.capacity)
    (succeeds : ∀ script ∈ scripts, script.Succeeds) (ends : trace.EndsNormally) :
    Path.sort trace.yielded = Path.sort ((State.ofScripts scripts).collect limits).1 := by
  obtain ⟨collected, reached, clear, same, gone, yielded, -⟩ :=
    exists_trace_of_collect workers capacity (Eq.refl ((State.ofScripts scripts).collect limits))
  rw [← yielded]
  rw [← same] at gone
  have normal := reached.endsNormally_of_succeeds succeeds clear gone
  exact (traced.exhausts ends).sort_eq (reached.exhausts normal) traced.faithful.distinct
    reached.faithful.distinct

end Sorted

/-- The merge loses, invents and repeats nothing, whatever order the steps come in. -/
theorem merge_delivers {ε : Type} {limits : Limits} (workers : 0 < limits.workers)
    (capacity : 0 < limits.capacity) (scripts : List (Script Path ε)) :
    (∀ trace, Traced limits scripts trace → trace.Faithful scripts) ∧
      ((∃ script ∈ scripts, ∃ error, script.Raises error) →
        ∀ trace, Traced limits scripts trace → ¬ trace.Closed → ¬ trace.EndsNormally ∧
          Inevitable limits (fun final => final.state.consumer = .gone ∧
            ∃ given, final.failures = [given] ∧ ∃ script ∈ scripts, script.Raises given) trace) ∧
      ((∀ script ∈ scripts, script.Succeeds) →
        ∀ trace, Traced limits scripts trace → ¬ trace.Closed →
          Inevitable limits Trace.EndsNormally trace ∧
          (trace.EndsNormally →
            Path.sort trace.yielded = Path.sort ((State.ofScripts scripts).collect limits).1)) := by
  refine ⟨fun trace traced => traced.faithful, ?_, ?_⟩
  · rintro ⟨script, member, error, raises⟩ trace traced unclosed
    exact ⟨traced.not_endsNormally member raises,
      traced.inevitable_failure workers capacity unclosed member raises⟩
  · intro succeeds trace traced unclosed
    exact ⟨traced.inevitable_endsNormally workers capacity unclosed succeeds,
      traced.sort_yielded_eq workers capacity succeeds⟩

/-- Two scans that share a path, one worker for both and room for one message: the stream has to end
normally, and with a third scan that fails it cannot. -/
theorem merge_delivers_shared_path :
    let limits : Limits := ⟨1, 1⟩
    let scripts : List (Script Path Nat) := [{ items := [.root, .here] }, { items := [.root] }]
    let failing : Script Path Nat := { items := [.here], failure := some 5 }
    (0 < limits.workers ∧ 0 < limits.capacity) ∧
      Inevitable limits Trace.EndsNormally (.initial scripts) ∧
      ¬ (Trace.initial (scripts ++ [failing])).EndsNormally ∧
      Inevitable limits (fun final => final.state.consumer = .gone ∧
        ∃ given, final.failures = [given] ∧
          ∃ script ∈ scripts ++ [failing], script.Raises given) (.initial (scripts ++ [failing])) := by
  intro limits scripts failing
  have succeeds : ∀ script ∈ scripts, script.Succeeds := by
    simp [scripts, Script.Succeeds]
  have raises : ∃ script ∈ scripts ++ [failing], ∃ error, script.Raises error :=
    ⟨failing, by simp, 5, .inr ⟨rfl, rfl⟩⟩
  have unclosed : ∀ scripts : List (Script Path Nat), ¬ (Trace.initial scripts).Closed := by
    simp [Trace.Closed, Trace.initial]
  have normal := (@merge_delivers Nat limits (by decide) (by decide) scripts).2.2 succeeds
  have failed :=
    (@merge_delivers Nat limits (by decide) (by decide) (scripts ++ [failing])).2.1 raises
  exact ⟨by decide, (normal _ .initial (unclosed _)).1, failed _ .initial (unclosed _)⟩

end PathSearch.Merge
