import PathSearch.Proofs.Filter.Stages
import PathSearch.Proofs.Walk.Below
import PathSearch.Proofs.Walk.Visit
import PathSearch.Scan

/-! The scan of one base gives the entries of its walk that the filters keep, each as it was walked. -/

namespace PathSearch

def Verdict.path? : Verdict → Option Path
  | .pass path => some path
  | _ => none

namespace ScanPlan

/-- The paths of a scan, in the order found. -/
def Course.paths (course : Course) : List Path := course.beats.map Beat.path

theorem paths_courseOfVerdicts {verdicts : List (Verdict × List ScanNotice)}
    (inside : ∀ verdict ∈ verdicts, verdict.1 ≠ .outside) (notices : List ScanNotice) :
    (courseOfVerdicts notices verdicts).paths = verdicts.filterMap fun verdict => verdict.1.path? := by
  induction verdicts generalizing notices with
  | nil => rfl
  | cons first rest ih =>
      obtain ⟨verdict, more⟩ := first
      have later : ∀ verdict ∈ rest, verdict.1 ≠ .outside := fun verdict member =>
        inside verdict (List.mem_cons_of_mem _ member)
      cases verdict with
      | pass path =>
          have others := ih later []
          simp only [Course.paths] at others
          simp [courseOfVerdicts, Course.paths, Verdict.path?, others]
      | drop =>
          have others := ih later (notices ++ more)
          simpa [courseOfVerdicts, Verdict.path?] using others
      | outside => exact absurd rfl (inside (.outside, more) (List.mem_cons_self ..))

theorem failure_courseOfVerdicts {verdicts : List (Verdict × List ScanNotice)}
    (inside : ∀ verdict ∈ verdicts, verdict.1 ≠ .outside) (notices : List ScanNotice) :
    (courseOfVerdicts notices verdicts).failure = none := by
  induction verdicts generalizing notices with
  | nil => rfl
  | cons first rest ih =>
      obtain ⟨verdict, more⟩ := first
      have later : ∀ verdict ∈ rest, verdict.1 ≠ .outside := fun verdict member =>
        inside verdict (List.mem_cons_of_mem _ member)
      cases verdict with
      | pass path => exact ih later []
      | drop => exact ih later (notices ++ more)
      | outside => exact absurd rfl (inside (.outside, more) (List.mem_cons_self ..))

variable {plan : ScanPlan}

theorem judge_failure (plan : ScanPlan) (path : Path) (error : FileError) :
    (plan.judge (.failure path error)).1 = .drop := rfl

theorem judge_entry {path relative : Path} (normal : path.IsNormal)
    (below : path.relativeTo? plan.group.base = some relative) (kind : Bool) :
    (plan.judge (.entry path kind)).1 =
      if plan.filters.keeps plan.group.rule path relative then .pass path else .drop :=
  Filters.verdict_stages plan.filters plan.system.current normal below

/-- What a scan is after: an entry of the walk that the filters keep. -/
def Keeps (plan : ScanPlan) (walk : Walk) (path : Path) : Prop :=
  (∃ kind, .entry path kind ∈ Walk.toList plan.system plan.options walk) ∧
    ∃ relative, path.relativeTo? plan.group.base = some relative ∧
      plan.filters.keeps plan.group.rule path relative = true

section Opened

variable {walk : Walk}

/-- What a walk reports lies below the base, so that no scan fails on the way. -/
theorem judge_ne_outside (opened : Walk.start plan.system plan.options plan.group.base = .ok walk)
    {item : WalkItem} (member : item ∈ Walk.toList plan.system plan.options walk) :
    (plan.judge item).1 ≠ .outside := by
  cases item with
  | failure path error => simp [judge_failure]
  | entry path kind =>
      obtain ⟨relative, below⟩ := (Walk.below_of_mem_toList opened member).exists_relativeTo?
      exact Filters.verdict_stages_ne_outside plan.filters plan.system.current below

theorem verdicts_ne_outside
    (opened : Walk.start plan.system plan.options plan.group.base = .ok walk) :
    ∀ verdict ∈ (Walk.toList plan.system plan.options walk).map plan.judge,
      verdict.1 ≠ .outside := by
  intro verdict member
  obtain ⟨item, inside, rfl⟩ := List.mem_map.mp member
  exact judge_ne_outside opened inside

theorem failure_courseOf (opened : Walk.start plan.system plan.options plan.group.base = .ok walk)
    (opening : List ScanNotice) : (plan.courseOf walk opening).failure = none :=
  failure_courseOfVerdicts (verdicts_ne_outside opened) opening

variable (normal : plan.group.base.IsNormal)
  (opened : Walk.start plan.system plan.options plan.group.base = .ok walk)

include normal opened

/-- An entry of the walk is a normal path, and what it is below the base leads back to it. -/
theorem entry_round_trip {path : Path} {kind : Bool}
    (member : .entry path kind ∈ Walk.toList plan.system plan.options walk) :
    path.IsNormal ∧ ∃ relative, path.relativeTo? plan.group.base = some relative ∧
      Path.normalize plan.system.current (plan.group.base ++ relative) = path := by
  have below := Walk.below_of_mem_toList opened member
  have itself := below.isNormal normal
  obtain ⟨relative, found⟩ := below.exists_relativeTo?
  exact ⟨itself, relative, found,
    Path.normalize_append_of_relativeTo? plan.system.current itself found⟩

theorem mem_paths_courseOf (opening : List ScanNotice) {path : Path} :
    path ∈ (plan.courseOf walk opening).paths ↔ plan.Keeps walk path := by
  rw [courseOf, paths_courseOfVerdicts (verdicts_ne_outside opened), List.filterMap_map, List.mem_filterMap]
  constructor
  · intro found
    obtain ⟨item, member, passed⟩ := found
    cases item with
    | failure other error => simp [judge_failure, Verdict.path?] at passed
    | entry other kind =>
        obtain ⟨itself, relative, below, -⟩ := entry_round_trip normal opened member
        simp only [Function.comp_apply, judge_entry itself below] at passed
        split at passed
        · rename_i kept
          simp only [Verdict.path?, Option.some.injEq] at passed
          subst passed
          exact ⟨⟨kind, member⟩, relative, below, kept⟩
        · simp [Verdict.path?] at passed
  · intro found
    obtain ⟨⟨kind, member⟩, relative, below, kept⟩ := found
    obtain ⟨itself, -⟩ := entry_round_trip normal opened member
    refine ⟨.entry path kind, member, ?_⟩
    simp only [Function.comp_apply, judge_entry itself below, if_pos kept, Verdict.path?]

end Opened

theorem course_of_ok {walk : Walk}
    (opened : Walk.start plan.system plan.options plan.group.base = .ok walk) :
    plan.course = .ok (plan.courseOf walk []) := by
  simp [course, start, opened, Except.map]

theorem course_of_error {error : FileError}
    (refused : Walk.start plan.system plan.options plan.group.base = .error (.failed error)) :
    plan.course = if plan.failFast then .error (.notStarted plan.group.base error)
      else .ok ⟨[], [.notStarted plan.group.base error], none⟩ := by
  cases fast : plan.failFast with
  | true => simp [course, start, refused, fast, Except.map]
  | false =>
      simp [course, start, refused, fast, Except.map, courseOf, Walk.toList_ended, courseOfVerdicts]

theorem course_of_embeddedNul
    (refused : Walk.start plan.system plan.options plan.group.base = .error .embeddedNul) :
    plan.course = .error .embeddedNul := by
  simp [course, start, refused, Except.map]

/-- The scan comes to look for paths: its base opens, or is skipped. -/
def Begins (plan : ScanPlan) : Prop := ∃ begun, plan.start = .ok begun

theorem begins_iff : plan.Begins ↔ Char.ofNat 0 ∉ plan.group.base.text ∧
    (plan.failFast = true → ∃ walk, Walk.start plan.system plan.options plan.group.base = .ok walk) := by
  rw [← @Walk.start_eq_embeddedNul plan.system plan.options]
  unfold Begins start
  cases Walk.start plan.system plan.options plan.group.base with
  | ok walk => simp
  | error error =>
      cases error with
      | embeddedNul => simp
      | failed error => cases plan.failFast <;> simp

/-- A scan that begins does not fail, and gives what it is after. -/
theorem exists_course (normal : plan.group.base.IsNormal) (begins : plan.Begins) :
    ∃ course, plan.course = .ok course ∧ course.failure = none ∧
      ∀ path, path ∈ course.paths ↔
        ∃ walk, Walk.start plan.system plan.options plan.group.base = .ok walk ∧
          plan.Keeps walk path := by
  obtain ⟨clear, opens⟩ := begins_iff.mp begins
  cases opened : Walk.start plan.system plan.options plan.group.base with
  | ok walk =>
      refine ⟨plan.courseOf walk [], course_of_ok opened, failure_courseOf opened [], ?_⟩
      intro path
      simp [mem_paths_courseOf normal opened []]
  | error error =>
      cases error with
      | embeddedNul => exact absurd (Walk.start_eq_embeddedNul.mp opened) clear
      | failed error =>
          have patient : plan.failFast = false := by
            cases fast : plan.failFast with
            | false => rfl
            | true =>
                obtain ⟨walk, other⟩ := opens fast
                simp [opened] at other
          refine ⟨⟨[], [.notStarted plan.group.base error], none⟩, ?_, rfl, ?_⟩
          · simp [course_of_error opened, patient]
          · intro path
            simp [Course.paths]

end ScanPlan

end PathSearch
