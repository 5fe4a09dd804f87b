import PathSearch.Proofs.Search.Course
import PathSearch.Proofs.Walk.Loss
import PathSearch.Search

/-! What a scan reports: every failure of its walk once, and at the level of warnings nothing else. -/

namespace PathSearch

def WalkItem.failure? : WalkItem → Option (Path × FileError)
  | .entry _ _ => none
  | .failure path error => some (path, error)

/-- The records of notices that are warnings. -/
def ScanNotice.warnings (notices : List ScanNotice) : List LogRecord :=
  LogRecord.visibleAt .warning (notices.map ScanNotice.record)

theorem ScanNotice.warnings_append (notices others : List ScanNotice) :
    warnings (notices ++ others) = warnings notices ++ warnings others := by
  simp [warnings, LogRecord.visibleAt]

namespace ScanPlan

/-- All that is reported when a scan is read to its end. -/
def Course.notices (course : Course) : List ScanNotice :=
  course.beats.flatMap Beat.notices ++ course.lastNotices

theorem notices_courseOfVerdicts {verdicts : List (Verdict × List ScanNotice)}
    (inside : ∀ verdict ∈ verdicts, verdict.1 ≠ .outside) (opening : List ScanNotice) :
    (courseOfVerdicts opening verdicts).notices = opening ++ verdicts.flatMap Prod.snd := by
  induction verdicts generalizing opening with
  | nil => simp [courseOfVerdicts, Course.notices]
  | cons first rest ih =>
      obtain ⟨verdict, more⟩ := first
      have later : ∀ verdict ∈ rest, verdict.1 ≠ .outside := fun verdict member =>
        inside verdict (List.mem_cons_of_mem _ member)
      cases verdict with
      | pass path =>
          have others := ih later []
          simp only [Course.notices, List.nil_append] at others
          simp [courseOfVerdicts, Course.notices, others]
      | drop =>
          have others := ih later (opening ++ more)
          simpa [courseOfVerdicts] using others
      | outside => exact absurd rfl (inside (.outside, more) (List.mem_cons_self ..))

variable {plan : ScanPlan} {walk : Walk}

/-- Judging an item gives a warning for a failure, and for an entry none. -/
theorem warnings_judge (plan : ScanPlan) (item : WalkItem) :
    ScanNotice.warnings (plan.judge item).2 =
      item.failure?.toList.map fun failure =>
        (ScanNotice.skipped plan.group.base failure.2 failure.1).record := by
  cases item with
  | failure path error => rfl
  | entry path kind =>
      have quiet : ∀ seen : List Sighting, ScanNotice.warnings (seen.map .sighted) = [] := by
        intro seen
        simp [ScanNotice.warnings, LogRecord.visibleAt, ScanNotice.record, Sighting.record, Level.rank]
      exact quiet _

theorem warnings_courseOf (opened : Walk.start plan.system plan.options plan.group.base = .ok walk)
    (opening : List ScanNotice) :
    ScanNotice.warnings (plan.courseOf walk opening).notices =
      ScanNotice.warnings opening ++
        ((Walk.toList plan.system plan.options walk).filterMap WalkItem.failure?).map fun failure =>
          (ScanNotice.skipped plan.group.base failure.2 failure.1).record := by
  rw [courseOf, notices_courseOfVerdicts (verdicts_ne_outside opened), ScanNotice.warnings_append]
  congr 1
  induction Walk.toList plan.system plan.options walk with
  | nil => rfl
  | cons item items ih =>
      rw [List.map_cons, List.flatMap_cons, ScanNotice.warnings_append, ih, warnings_judge]
      cases item <;> rfl

/-- Faults lose nothing silently. With them a walk still comes to its end; what it reports of entries is
what it would report without them, in that order, save what lies at or below a failure due to them; and
the scan warns of every failure. -/
theorem loss_is_reported (present : ∀ fault ∈ plan.system.faults, fault.cause ≠ .missing)
    (started : Walk.start plan.system plan.options plan.group.base = .ok walk) :
    (∀ items count state, Walk.Runs plan.system plan.options walk items count state →
      count ≤ Walk.size plan.system plan.options walk ∧
        (state = ⟨[], []⟩ ∧ items = Walk.toList plan.system plan.options walk ∨
          ∃ more after, Walk.Steps plan.system plan.options state more after)) ∧
      (∃ clean, Walk.start plan.system.faultless plan.options plan.group.base = .ok clean ∧
        ((Walk.toList plan.system plan.options walk).filter WalkItem.isEntry).Sublist
          ((Walk.toList plan.system.faultless plan.options clean).filter WalkItem.isEntry) ∧
        (∀ path kind, .entry path kind ∈ Walk.toList plan.system.faultless plan.options clean →
          .entry path kind ∉ Walk.toList plan.system plan.options walk →
          ∃ place error, place.Below path ∧
            .failure place error ∈ Walk.toList plan.system plan.options walk ∧
            .failure place error ∉ Walk.toList plan.system.faultless plan.options clean) ∧
        ∀ path error, .failure path error ∈ Walk.toList plan.system plan.options walk →
          .failure path error ∉ Walk.toList plan.system.faultless plan.options clean →
          ∃ fault ∈ plan.system.faults, fault.cause = error.cause ∧
            plan.system.Names path fault.location) ∧
      ∃ course, plan.course = .ok course ∧ course.failure = none ∧
        ScanNotice.warnings course.notices =
          ((Walk.toList plan.system plan.options walk).filterMap WalkItem.failure?).map fun failure =>
            (ScanNotice.skipped plan.group.base failure.2 failure.1).record := by
  exact ⟨fun items count state runs => runs.bounded, Walk.faults_cost_subtrees present started,
    _, course_of_ok started, failure_courseOf started [], warnings_courseOf started []⟩

/-- The directory `d` cannot be listed. The file in it is lost under its own path and under that of a
link to the directory; the failure that costs it names the directory. -/
theorem loss_is_reported_behind_link :
    let tree := (Tree.empty.add [['d'], ['f']] (.file .empty)).add [['e']] (.link ['d'])
    let system : FileSystem := ⟨tree, [⟨.list, [['d']], .denied⟩], .root⟩
    let plan : ScanPlan := ⟨system, {}, ⟨[], [], [], false⟩, ⟨.root, .everything⟩, false⟩
    let lost := Path.root ++ Path.ofText ['e'] ++ Path.ofText ['f']
    ∃ walk clean, (∀ fault ∈ plan.system.faults, fault.cause ≠ .missing) ∧
      Walk.start plan.system plan.options plan.group.base = .ok walk ∧
      Walk.start plan.system.faultless plan.options plan.group.base = .ok clean ∧
      .entry lost true ∈ Walk.toList plan.system.faultless plan.options clean ∧
      .entry lost true ∉ Walk.toList plan.system plan.options walk ∧
      ∃ place error, place.Below lost ∧
        .failure place error ∈ Walk.toList plan.system plan.options walk ∧
        .failure place error ∉ Walk.toList plan.system.faultless plan.options clean ∧
        error.cause = .denied ∧ plan.system.Names place [['d']] := by
  intro tree system plan lost
  have present : ∀ fault ∈ plan.system.faults, fault.cause ≠ .missing := by decide
  have started : Walk.start plan.system plan.options plan.group.base =
      .ok ⟨[], [⟨.root, [], 1, ⟨[['d'], ['e']], none⟩⟩]⟩ := rfl
  obtain ⟨-, ⟨clean, opened, -, missing, extra⟩, -⟩ := loss_is_reported present started
  have same : clean = ⟨[], [⟨.root, [], 1, ⟨[['d'], ['e']], none⟩⟩]⟩ :=
    (Except.ok.inj (opened.symm.trans rfl))
  subst same
  have walked : .entry lost true ∈ Walk.toList plan.system.faultless plan.options
      ⟨[], [⟨.root, [], 1, ⟨[['d'], ['e']], none⟩⟩]⟩ := by decide +kernel
  have gone : .entry lost true ∉ Walk.toList plan.system plan.options
      ⟨[], [⟨.root, [], 1, ⟨[['d'], ['e']], none⟩⟩]⟩ := by decide +kernel
  obtain ⟨place, error, below, reported, new⟩ := missing lost true walked gone
  obtain ⟨fault, member, cause, names⟩ := extra place error reported new
  cases List.mem_singleton.mp member
  exact ⟨_, _, present, started, opened, walked, gone, place, error, below, reported, new, cause.symm, names⟩

end ScanPlan

end PathSearch
