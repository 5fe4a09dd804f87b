import PathSearch.Proofs.Search.Meaning
import PathSearch.Proofs.Search.Notices

/-!
Bases that cannot be opened. A search that is to fail fast fails because of one of them and for no other
reason; otherwise it reports each of them once, and finds what it would find without them. A base with a NUL in
its path is none that can be skipped: with one of these every search fails.
-/

namespace PathSearch

section Bases

end Bases

/-- Opening the base gives this error: it cannot be looked at, or it is a directory to be listed and
cannot be. -/
inductive Query.Unopenable (query : Query) (system : FileSystem) (base : Path) : FileError → Prop where
  | hidden {error : FileError} (refused : system.status base = .error (.failed error)) :
      Unopenable query system base error
  | closed {location : Location} {entries : Entries} {cause : FileCause}
      (found : system.status base = .ok (location, some (.dir entries)))
      (deep : query.maxDepth ≠ some 0) (refused : system.listAt location = .error cause) :
      Unopenable query system base ⟨cause, some base.text⟩

theorem Query.descendsBelow_zero_iff (query : Query) :
    query.walkOptions.descendsBelow 0 = true ↔ query.maxDepth ≠ some 0 := by
  unfold walkOptions WalkOptions.descendsBelow
  cases query.maxDepth with
  | none => simp
  | some limit =>
      simp only [Option.map_some, decide_eq_true_eq, ne_eq, Option.some.injEq]
      change (0 : Int) < limit ↔ _
      omega

theorem Query.unopenable_iff {query : Query} {system : FileSystem} {base : Path} {error : FileError} :
    query.Unopenable system base error ↔
      Walk.start system query.walkOptions base = .error (.failed error) := by
  have starts := Walk.starts_start system query.walkOptions base
  generalize Walk.start system query.walkOptions base = result at starts ⊢
  constructor
  · intro unopenable
    cases unopenable with
    | hidden refused => cases starts with
      | hidden again => exact congrArg _ (Except.error.inj (again.symm.trans refused))
      | file found => cases refused.symm.trans found
      | other found => cases refused.symm.trans found
      | shallow found => cases refused.symm.trans found
      | closed found => cases refused.symm.trans found
      | opened found => cases refused.symm.trans found
    | closed found deep refused => cases starts with
      | hidden again => cases found.symm.trans again
      | file again => cases found.symm.trans again
      | other again directory =>
          cases found.symm.trans again
          exact absurd rfl (directory _)
      | shallow _ shallow => simp [query.descendsBelow_zero_iff.mpr deep] at shallow
      | closed again _ other =>
          cases found.symm.trans again
          cases refused.symm.trans other
          rfl
      | opened again _ other =>
          cases found.symm.trans again
          cases refused.symm.trans other
  · rintro rfl
    cases starts with
    | hidden refused => exact .hidden refused
    | closed found deep refused => exact .closed found (query.descendsBelow_zero_iff.mp deep) refused

namespace ScanNotice

end ScanNotice

namespace Search

variable {search : Search} {group : BaseGroup} {walk : Walk} {error : FileError}
  {failure : ScanError}

section Courses

theorem courseAt_of_ok
    (opened : Walk.start search.system search.query.walkOptions group.base = .ok walk) :
    search.courseAt group =
      (ScanPlan.ofQuery search.system search.query search.filters group).courseOf walk [] := by
  have scanned := @ScanPlan.course_of_ok
    (ScanPlan.ofQuery search.system search.query search.filters group) walk opened
  simp only [courseAt, scanned]

theorem courseAt_of_error
    (refused : Walk.start search.system search.query.walkOptions group.base = .error (.failed error)) :
    search.courseAt group =
      if search.query.failFast then ⟨[], [], some (.notStarted group.base error)⟩
      else ⟨[], [.notStarted group.base error], none⟩ := by
  have scanned := @ScanPlan.course_of_error
    (ScanPlan.ofQuery search.system search.query search.filters group) error refused
  unfold courseAt
  rw [scanned]
  cases fast : search.query.failFast <;> simp [ScanPlan.ofQuery, fast]

theorem courseAt_of_embeddedNul
    (refused : Walk.start search.system search.query.walkOptions group.base = .error .embeddedNul) :
    search.courseAt group = ⟨[], [], some .embeddedNul⟩ := by
  have scanned := @ScanPlan.course_of_embeddedNul
    (ScanPlan.ofQuery search.system search.query search.filters group) refused
  simp only [courseAt, scanned]

end Courses

section Failures

/-- The search has this reason to fail: it is to fail fast, and opening one of its bases gives the
error. -/
def Fails (search : Search) (failure : ScanError) : Prop :=
  search.query.failFast = true ∧ ∃ group ∈ search.groups, ∃ error,
    failure = .notStarted group.base error ∧ search.query.Unopenable search.system group.base error

/-- The search fails in this way, for the reason above or because there is a NUL in one of its bases. -/
def Breaks (search : Search) (failure : ScanError) : Prop :=
  search.Fails failure ∨
    failure = .embeddedNul ∧ ∃ group ∈ search.groups, Char.ofNat 0 ∈ group.base.text

theorem failure_courseAt_iff : (search.courseAt group).failure = some failure ↔
    (search.query.failFast = true ∧ ∃ error, failure = .notStarted group.base error ∧
      search.query.Unopenable search.system group.base error) ∨
    (failure = .embeddedNul ∧ Char.ofNat 0 ∈ group.base.text) := by
  rw [← @Walk.start_eq_embeddedNul search.system search.query.walkOptions]
  simp only [Query.unopenable_iff]
  cases started : Walk.start search.system search.query.walkOptions group.base with
  | ok walk =>
      have unfailed := @ScanPlan.failure_courseOf
        (ScanPlan.ofQuery search.system search.query search.filters group) walk started []
      simp [courseAt_of_ok started, unfailed]
  | error refusal =>
      cases refusal with
      | embeddedNul =>
          rw [courseAt_of_embeddedNul started, Option.some.injEq, eq_comm]
          simp
      | failed error =>
          rw [courseAt_of_error started]
          cases search.query.failFast with
          | false => simp
          | true => simp [eq_comm]

variable {limits : Merge.Limits} {trace : Merge.Trace Path ScanError}

theorem begins_of_succeeds (succeeds : ∀ script ∈ search.scripts, script.Succeeds) : search.Begins := by
  intro group member
  have unfailed : (search.courseAt group).failure = none :=
    (succeeds _ (mem_scripts.mpr ⟨group, member, rfl⟩)).2
  have none : ∀ failure, (search.courseAt group).failure ≠ some failure := by simp [unfailed]
  have clear : Char.ofNat 0 ∉ group.base.text := fun nul =>
    none _ (failure_courseAt_iff.mpr (.inr ⟨rfl, nul⟩))
  refine ScanPlan.begins_iff.mpr ⟨clear, fun fast => ?_⟩
  cases started : Walk.start search.system search.query.walkOptions group.base with
  | ok walk => exact ⟨walk, started⟩
  | error refusal =>
      cases refusal with
      | embeddedNul => exact absurd (Walk.start_eq_embeddedNul.mp started) clear
      | failed error =>
          have unopenable := Query.unopenable_iff.mpr started
          exact absurd (failure_courseAt_iff.mpr (.inl ⟨fast, error, rfl, unopenable⟩)) (none _)

/-- A normal end means that every base which has to open has opened, so that what was given is what is found. -/
theorem mem_yielded_iff {system : FileSystem} {query : Query} {tracing : Bool}
    (absolute : system.current.IsAbsolute) (made : ofQuery system query tracing = .ok search)
    (traced : Merge.Traced limits search.scripts trace) (ends : trace.EndsNormally) {path : Path} :
    path ∈ trace.yielded ↔ search.Finds path := by
  have exhausts := traced.exhausts ends
  rw [exhausts.mem_iff, exists_script_iff_finds absolute made (begins_of_succeeds exhausts.succeeds)]

end Failures

section Notices

/-- Why the base cannot be opened, if the file system has a reason. -/
def refusal? (search : Search) (group : BaseGroup) : Option FileError :=
  match Walk.start search.system search.query.walkOptions group.base with
  | .error (.failed error) => some error
  | _ => none

end Notices

section Openable

end Openable

section Ends

variable {limits : Merge.Limits} (workers : 0 < limits.workers) (capacity : 0 < limits.capacity)

include workers capacity

end Ends

variable {system : FileSystem} {query : Query} {tracing : Bool}

end Search

end PathSearch
