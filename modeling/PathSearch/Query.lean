import PathSearch.Scope.Exclusion

namespace PathSearch

/-- What to find and where. The collections hold each text once, in order, so equal queries are equal
values; an absent depth limit means no limit. -/
structure Query where
  baseDir : Path := Path.here
  includeGlobs : List Text := []
  excludeGlobs : List Text := []
  allowedExtensions : List Text := []
  maxDepth : Option Nat := none
  onlyFiles : Bool := true
  followLinks : Bool := true
  failFast : Bool := true
  deriving DecidableEq

namespace Query

/-- A collection without repetition, in order of code points. -/
def collection (texts : List Text) : List Text := (Text.sort texts).eraseDups

/-- A negative limit is no limit. -/
def depthLimit (limit : Int) : Option Nat := if limit < 0 then none else some limit.toNat

/-- The base directory as an absolute path without `..`; links are kept. -/
def normalizedBaseDir (current : Path) (query : Query) : Path :=
  Path.normalize current query.baseDir

end Query

end PathSearch
