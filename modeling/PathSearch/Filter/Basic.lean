import PathSearch.Filter.Stage
import PathSearch.Query

namespace PathSearch

/-- The filters of a query, compiled. -/
structure Filters where
  extensions : List Text
  absoluteExcludes : List Glob.Matcher
  relativeExcludes : List Glob.Matcher
  tracing : Bool := false
  deriving DecidableEq

namespace Filters

/-- Extensions as they are compared: without blanks around them, leading dots, or upper case. Blank
ones count for nothing. -/
def normalExtensions (extensions : List Text) : List Text :=
  ((extensions.map Text.strip).filter fun extension => extension ≠ []).map fun extension =>
    Text.lower (Text.trimLeft (· == '.') extension)

def watch (filters : Filters) (checkpoint : Checkpoint) : List Stage :=
  if filters.tracing then [.watch checkpoint] else []

/-- The stages that every path goes through, wherever it was found. A filter that is not configured
has no stage. -/
def globalStages (filters : Filters) : List Stage :=
  filters.watch .found ++
    (if filters.extensions = [] then []
    else .extension filters.extensions :: filters.watch .passedExtension) ++
    (if filters.absoluteExcludes = [] then []
    else .absoluteExclude filters.absoluteExcludes :: filters.watch .passedAbsoluteExclude)

/-- The stages for the paths found under one base: make relative, match, and make absolute again.
There are none when nothing is matched relative to the base. -/
def stagesFor (filters : Filters) (current : Path) (group : BaseGroup) : List Stage :=
  let including :=
    match group.rule with
    | .everything => []
    | .anyOf matchers => .include matchers :: filters.watch .passedInclude
  let excluding :=
    if filters.relativeExcludes = [] then []
    else .relativeExclude filters.relativeExcludes :: filters.watch .passedRelativeExclude
  if including ++ excluding = [] then []
  else .relativize group.base :: including ++ excluding ++ [.absolutize current group.base]

/-- Sends paths one after the other through stages in a row and collects those passed on. A path
outside the base ends the run; what was reported up to then remains. -/
def run (stages : List Stage) : List Path → Option (List Path) × List Sighting
  | [] => (some [], [])
  | path :: rest =>
      let (verdict, seen) := Stage.applyAll stages path
      match verdict with
      | .outside => (none, seen)
      | .drop =>
          let (passed, others) := run stages rest
          (passed, seen ++ others)
      | .pass final =>
          let (passed, others) := run stages rest
          (passed.map (final :: ·), seen ++ others)

/-- Compiles the filters of a query; the absolute excludes come first. -/
def ofQuery (query : Query) (tracing : Bool) : Except Glob.Error Filters := do
  let excludes := ExcludeGlobs.ofGlobs query.excludeGlobs
  let absolute ← compileExcludes excludes.absolute
  let relative ← compileExcludes excludes.relative
  return ⟨normalExtensions query.allowedExtensions, absolute, relative, tracing⟩

end Filters

end PathSearch
