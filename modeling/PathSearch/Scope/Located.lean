import PathSearch.Glob.Matcher
import PathSearch.Path.Normal

namespace PathSearch

/-- A glob as a directory to start from and a test for the paths below it. -/
structure LocatedGlob where
  base : Path
  matcher : Glob.Matcher
  deriving DecidableEq

/-- A segment that a glob does not name literally. -/
def isWildcardSegment (segment : Text) : Bool :=
  segment.any fun character =>
    character == '*' || character == '?' || character == '[' || character == ']' ||
      character == '\x7b' || character == '\x7d'

/-- A glob that starts at the root rather than in some directory. -/
def isAbsoluteGlob (glob : Text) : Bool := ['/'].isPrefixOf (Glob.slashed glob)

def globSegments (glob : Text) : List Text :=
  ((Glob.slashed glob).split '/').filter fun segment => segment ≠ []

namespace LocatedGlob

/-- The leading segments of a glob that it names literally. -/
def literalSegments (glob : Text) : List Text :=
  (globSegments glob).takeWhile fun segment => !isWildcardSegment segment

/-- The segments from the first wildcard one on, with the trailing slash that the glob has. -/
def residual (glob : Text) : Text :=
  let segments := (globSegments glob).dropWhile fun segment => !isWildcardSegment segment
  let slash := if (Glob.slashed glob).getLast? = some '/' then ['/'] else []
  Text.join '/' segments ++ slash

/-- The directory that the literal segments lead to. -/
def baseOf (current start : Path) (glob : Text) : Path :=
  let literal := Text.join '/' (literalSegments glob)
  if isAbsoluteGlob glob then Path.normalize current (Path.ofText ('/' :: literal))
  else if literal = [] then start
  else Path.normalize current (start ++ Path.ofText literal)

/-- Splits a glob into the directory its literal segments lead to and a matcher for the rest. A glob
that names everything literally matches all of that directory. -/
def ofGlob (current start : Path) (glob : Text) : Except Glob.Error LocatedGlob :=
  let base := baseOf current start glob
  if (globSegments glob).all fun segment => !isWildcardSegment segment then
    .ok ⟨base, .everything⟩
  else (Glob.compile (residual glob)).map fun matcher => ⟨base, matcher⟩

end LocatedGlob

end PathSearch
