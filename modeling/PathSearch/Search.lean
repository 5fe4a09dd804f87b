import PathSearch.Merge.Stream
import PathSearch.Scan

namespace PathSearch

/-- A query made ready: the bases to scan and the compiled filters. -/
structure Search where
  system : FileSystem
  query : Query
  groups : List BaseGroup
  filters : Filters

/-- The record of a path that the merge gives to its consumer. -/
def emittedRecord (path : Path) : LogRecord :=
  { level := .debug, reporter := .merge, message := s!"Emitting {path.toString}" }

namespace ScanPlan.Course

/-- The scan with this course as the merge sees it. -/
def script (course : Course) : Merge.Script Path ScanError :=
  { refusal := none, items := course.beats.map Beat.path, failure := course.failure, closable := true }

/-- What is reported by the time the scan has been asked so often for its next path. -/
def noticesAfter (course : Course) (pulls : Nat) : List ScanNotice :=
  (course.beats.take pulls).flatMap Beat.notices ++
    if course.beats.length < pulls then course.lastNotices else []

end ScanPlan.Course

namespace Search

/-- Makes a query ready. The include globs are compiled before the exclude globs. -/
def ofQuery (system : FileSystem) (query : Query) (tracing : Bool) : Except Glob.Error Search := do
  let groups ← BaseGroup.ofGlobs system.current (query.normalizedBaseDir system.current)
    query.includeGlobs
  let filters ← Filters.ofQuery query tracing
  return ⟨system, query, groups, filters⟩

def courses (search : Search) : List ScanPlan.Course :=
  search.groups.map fun group =>
    match (ScanPlan.ofQuery search.system search.query search.filters group).course with
    | .ok course => course
    | .error error => ⟨[], [], some error⟩

/-- The merge of all scans, before anything has been asked of it. -/
def stream (search : Search) : Merge.State Path ScanError :=
  .ofScripts (search.courses.map ScanPlan.Course.script)

/-- What the scans have reported by the time the merge is in a state. -/
def notices (search : Search) (state : Merge.State Path ScanError) : List ScanNotice :=
  (search.courses.zip state.tasks).flatMap fun (course, task) => course.noticesAfter task.pulls

/-- The log by the time the merge is in a state. -/
def log (search : Search) (state : Merge.State Path ScanError) : List LogRecord :=
  (search.notices state).map ScanNotice.record ++ state.seen.map emittedRecord

/-- Reads everything: the paths found, or the failure of a scan, and the log. -/
def run (search : Search) (limits : Merge.Limits) :
    List Path × Option ScanError × List LogRecord :=
  let (paths, failure, final) := search.stream.collect limits
  (paths, failure, search.log final)

end Search

end PathSearch
