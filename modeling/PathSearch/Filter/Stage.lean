import PathSearch.Log
import PathSearch.Scope.Exclusion
import PathSearch.Text.Lowercase

namespace PathSearch

/-- The lower-case text after the last dot of the file name, or nothing when it has no dot. -/
def fileExtension (path : Path) : Text :=
  if '.' ∈ path.name then
    Text.lower (path.name.reverse.takeWhile fun character => character ≠ '.').reverse
  else []

/-- A point of the filtering that tracing reports. -/
inductive Checkpoint where
  | found
  | passedExtension
  | passedAbsoluteExclude
  | passedInclude
  | passedRelativeExclude
  deriving DecidableEq, Repr

namespace Checkpoint

def message : Checkpoint → String
  | .found => "Found"
  | .passedExtension => "Passed extension filter"
  | .passedAbsoluteExclude => "Passed exclude absolute filter"
  | .passedInclude => "Passed include filter"
  | .passedRelativeExclude => "Passed exclude relative filter"

end Checkpoint

structure Sighting where
  checkpoint : Checkpoint
  path : Path
  deriving DecidableEq

namespace Sighting

def record (sighting : Sighting) : LogRecord :=
  { level := .trace
    reporter := .filters
    message := s!"{sighting.checkpoint.message} {sighting.path.toString}" }

end Sighting

/-- One step of filtering. `relativize` and `absolutize` change the path that later stages see. -/
inductive Stage where
  | watch (checkpoint : Checkpoint)
  | extension (allowed : List Text)
  | absoluteExclude (matchers : List Glob.Matcher)
  | relativize (base : Path)
  | include (matchers : List Glob.Matcher)
  | relativeExclude (matchers : List Glob.Matcher)
  | absolutize (current base : Path)
  deriving DecidableEq

/-- What becomes of a path: it is passed on, it is dropped, or it does not lie below the base that it
should be made relative to. -/
inductive Verdict where
  | pass (path : Path)
  | drop
  | outside
  deriving DecidableEq

namespace Stage

def name : Stage → String
  | .watch checkpoint => s!"trace: {checkpoint.message}"
  | .extension _ => "extension"
  | .absoluteExclude _ => "absolute exclude"
  | .relativize _ => "relativize"
  | .include _ => "include"
  | .relativeExclude _ => "relative exclude"
  | .absolutize _ _ => "absolutize"

def keepIf (test : Bool) (path : Path) : Verdict := if test then .pass path else .drop

def apply : Stage → Path → Verdict
  | .watch _, path => .pass path
  | .extension allowed, path => keepIf (allowed.contains (fileExtension path)) path
  | .absoluteExclude matchers, path => keepIf (!isExcluded matchers path) path
  | .relativize base, path =>
      match path.relativeTo? base with
      | some relative => .pass relative
      | none => .outside
  | .include matchers, path => keepIf ((IncludeRule.anyOf matchers).accepts path) path
  | .relativeExclude matchers, path => keepIf (!isExcluded matchers path) path
  | .absolutize current base, path => .pass (Path.normalize current (base ++ path))

/-- What a stage reports about the path it is given. -/
def sightings : Stage → Path → List Sighting
  | .watch checkpoint, path => [⟨checkpoint, path⟩]
  | _, _ => []

/-- Sends a path through stages in a row, until one of them does not pass it on. -/
def applyAll : List Stage → Path → Verdict × List Sighting
  | [], path => (.pass path, [])
  | stage :: rest, path =>
      match stage.apply path with
      | .pass next =>
          let (verdict, seen) := applyAll rest next
          (verdict, stage.sightings path ++ seen)
      | verdict => (verdict, stage.sightings path)

end Stage

end PathSearch
