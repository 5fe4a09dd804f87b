import PathSearch.Scope.Located

namespace PathSearch

/-- Which paths below a base are wanted. -/
inductive IncludeRule where
  | everything
  | anyOf (matchers : List Glob.Matcher)
  deriving DecidableEq

namespace IncludeRule

/-- The rule accepts a path given relative to its base. -/
def accepts : IncludeRule → Path → Bool
  | .everything, _ => true
  | .anyOf matchers, path => matchers.any fun matcher => matcher.accepts path

/-- A matcher for everything makes all others under the same base superfluous. -/
def ofMatchers (matchers : List Glob.Matcher) : IncludeRule :=
  if .everything ∈ matchers then .everything else .anyOf matchers.eraseDups

end IncludeRule

/-- A directory to scan and what is wanted below it. -/
structure BaseGroup where
  base : Path
  rule : IncludeRule
  deriving DecidableEq

/-- The globs that are not blank, without surrounding blanks. -/
def usableGlobs (globs : List Text) : List Text :=
  (globs.map Text.strip).filter fun glob => glob ≠ []

namespace BaseGroup

/-- One group for each base, in order of first appearance. -/
def ofLocated (located : List LocatedGlob) : List BaseGroup :=
  (located.map LocatedGlob.base).eraseDups.map fun base =>
    let here := located.filter fun glob => glob.base = base
    ⟨base, .ofMatchers (here.map LocatedGlob.matcher)⟩

/-- The groups of include globs. Without a usable glob everything below `start` is wanted. -/
def ofGlobs (current start : Path) (globs : List Text) : Except Glob.Error (List BaseGroup) := do
  let located ← (usableGlobs globs).mapM (LocatedGlob.ofGlob current start)
  return if located = [] then [⟨start, .everything⟩] else ofLocated located

end BaseGroup

end PathSearch
