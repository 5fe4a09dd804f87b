import PathSearch.Scope.Rule

namespace PathSearch

def Text.sort (texts : List Text) : List Text := texts.mergeSort Text.le

/-- Exclude globs: the absolute ones test whole paths, the relative ones test paths relative to the
base that they were found under. -/
structure ExcludeGlobs where
  absolute : List Text
  relative : List Text
  deriving DecidableEq

namespace ExcludeGlobs

def ofGlobs (globs : List Text) : ExcludeGlobs :=
  let usable := usableGlobs globs
  ⟨Text.sort (usable.filter isAbsoluteGlob), Text.sort (usable.filter fun glob => !isAbsoluteGlob glob)⟩

end ExcludeGlobs

/-- Compiled exclude globs, each matcher once. -/
def compileExcludes (globs : List Text) : Except Glob.Error (List Glob.Matcher) :=
  (globs.mapM Glob.compile).map List.eraseDups

def isExcluded (matchers : List Glob.Matcher) (path : Path) : Bool :=
  matchers.any fun matcher => matcher.accepts path

end PathSearch
