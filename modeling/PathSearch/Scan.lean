import PathSearch.Filter.Basic
import PathSearch.Walk.Stream

namespace PathSearch

/-- Something that a scan reports besides paths. -/
inductive ScanNotice where
  | skipped (base : Path) (error : FileError) (path : Path)
  | abandoned (base : Path) (error : FileError)
  | notStarted (base : Path) (error : FileError)
  | sighted (sighting : Sighting)
  deriving DecidableEq

namespace ScanNotice

def record : ScanNotice → LogRecord
  | .skipped base error path =>
      { level := .warning
        reporter := .scans
        message := s!"I/O during traversal of '{base.toString}': {error.message}. " ++
          s!"Skipping {path.toString}." }
  | .abandoned base error =>
      { level := .warning
        reporter := .scans
        message := s!"I/O during traversal of '{base.toString}': {error.message}. " ++
          "Skipping the rest of this base."
        withCause := true }
  | .notStarted base error =>
      { level := .warning
        reporter := .scans
        message := s!"Failed to start scanning base '{base.toString}'. Skipping this base. " ++
          s!"({error.message})" }
  | .sighted sighting => sighting.record

end ScanNotice

/-- How a scan fails: opening its base fails, there is a NUL in the path of the base, or a path does not lie
below it. -/
inductive ScanError where
  | notStarted (base : Path) (cause : FileError)
  | embeddedNul
  | outside
  deriving DecidableEq

namespace ScanError

def message : ScanError → String
  | .notStarted base _ => s!"Failed to start scanning base '{base.toString}'. Skipping this base."
  | .embeddedNul => "embedded null byte"
  | .outside => "path is not below the base"

end ScanError

/-- What pulling the next item of a walk may give. -/
inductive Pulled where
  | item (item : WalkItem)
  | broken (error : FileError)
  deriving DecidableEq

/-- An entry's path goes on; a failure is reported and costs only what it concerns. -/
def shieldItem (base : Path) : WalkItem → Option Path × List ScanNotice
  | .entry path _ => (some path, [])
  | .failure path error => (none, [.skipped base error path])

/-- The paths among what was pulled. A failure of pulling itself ends them. -/
def shield (base : Path) : List Pulled → List Path × List ScanNotice
  | [] => ([], [])
  | .broken error :: _ => ([], [.abandoned base error])
  | .item item :: rest =>
      let (path, notices) := shieldItem base item
      let (paths, others) := shield base rest
      (path.toList ++ paths, notices ++ others)

/-- Everything that decides what a scan finds. -/
structure ScanPlan where
  system : FileSystem
  options : WalkOptions
  filters : Filters
  group : BaseGroup
  failFast : Bool

namespace ScanPlan

def ofQuery (system : FileSystem) (query : Query) (filters : Filters) (group : BaseGroup) :
    ScanPlan :=
  ⟨system, ⟨query.maxDepth.map Int.ofNat, query.onlyFiles, query.followLinks⟩, filters, group, query.failFast⟩

/-- The stages that a path found under the base goes through. -/
def stages (plan : ScanPlan) : List Stage :=
  plan.filters.globalStages ++ plan.filters.stagesFor plan.system.current plan.group

/-- Opens the base. One that cannot be opened is reported and skipped, unless the search is to fail
fast. A NUL in its path is no matter of the file system, and is never skipped. -/
def start (plan : ScanPlan) : Except ScanError (Walk × List ScanNotice) :=
  match Walk.start plan.system plan.options plan.group.base with
  | .ok walk => .ok (walk, [])
  | .error .embeddedNul => .error .embeddedNul
  | .error (.failed error) =>
      if plan.failFast then .error (.notStarted plan.group.base error)
      else .ok (⟨[], []⟩, [.notStarted plan.group.base error])

def judge (plan : ScanPlan) (item : WalkItem) : Verdict × List ScanNotice :=
  match shieldItem plan.group.base item with
  | (none, notices) => (.drop, notices)
  | (some path, notices) =>
      let (verdict, seen) := Stage.applyAll plan.stages path
      (verdict, notices ++ seen.map .sighted)

/-- One pull from a scan: the next path that passes all stages, or none when the walk is over. -/
structure Pull where
  result : Except ScanError (Option Path)
  walk : Walk
  notices : List ScanNotice

def pull (plan : ScanPlan) (walk : Walk) : Pull :=
  match _taken : Walk.next plan.system plan.options walk with
  | (none, rest) => ⟨.ok none, rest, []⟩
  | (some item, rest) =>
      match plan.judge item with
      | (.pass path, notices) => ⟨.ok (some path), rest, notices⟩
      | (.outside, notices) => ⟨.error .outside, rest.close, notices⟩
      | (.drop, notices) =>
          let later := pull plan rest
          { later with notices := notices ++ later.notices }
termination_by Walk.size plan.system plan.options walk
decreasing_by exact Walk.size_next_lt plan.system plan.options _taken

/-- A path together with what was reported while it was looked for. -/
structure Beat where
  notices : List ScanNotice
  path : Path
  deriving DecidableEq

/-- A whole scan: its paths in the order found, and how it ends. -/
structure Course where
  beats : List Beat
  lastNotices : List ScanNotice
  failure : Option ScanError
  deriving DecidableEq

/-- The course that judged items make, `notices` being what was reported since the last path. -/
def courseOfVerdicts (notices : List ScanNotice) : List (Verdict × List ScanNotice) → Course
  | [] => ⟨[], notices, none⟩
  | (.drop, more) :: rest => courseOfVerdicts (notices ++ more) rest
  | (.outside, more) :: _ => ⟨[], notices ++ more, some .outside⟩
  | (.pass path, more) :: rest =>
      let later := courseOfVerdicts [] rest
      { later with beats := ⟨notices ++ more, path⟩ :: later.beats }

/-- The course of a scan whose base has been opened. -/
def courseOf (plan : ScanPlan) (walk : Walk) (opening : List ScanNotice) : Course :=
  courseOfVerdicts opening ((Walk.toList plan.system plan.options walk).map plan.judge)

/-- The course of a scan; a base that cannot be opened has one too, unless that is an error. -/
def course (plan : ScanPlan) : Except ScanError Course :=
  plan.start.map fun (walk, opening) => plan.courseOf walk opening

end ScanPlan

end PathSearch
