import PathSearch.Text.Quoted

namespace PathSearch.Glob

inductive Reason where
  | empty
  | unmatchedBrace
  | unclosedBrace
  | unclosedClass
  | reversedRange (first last : Char)
  deriving DecidableEq, Repr

namespace Reason

def message : Reason → String
  | .empty => "empty pattern"
  | .unmatchedBrace => "unmatched '\x7d'"
  | .unclosedBrace => "unclosed '\x7b'"
  | .unclosedClass => "unclosed character class '['"
  | .reversedRange first last => s!"invalid range '{first}-{last}'"

end Reason

/-- The greatest number of expansions that are made in the result of each other. Each of them is a call inside the
one before it, and so many fit when a glob is compiled on its own. A compilation that is itself made some calls deep,
as that of a query's globs is, has room for as many fewer. -/
def expansionLimit : Nat := 992

/-- How compiling a pattern fails. A reversed range is `malformed` when the check of the whole
pattern finds it; one that only shows once the class is read member by member is `reversedMember`. A
pattern takes too many expansions when more than `expansionLimit` of its brace groups or of its inner
globstars are expanded one after the other. The last two have no wording of their own. -/
inductive Error where
  | malformed (pattern : Text) (reason : Reason)
  | reversedMember
  | tooManyExpansions
  deriving DecidableEq, Repr

namespace Error

def message : Error → String
  | .malformed pattern reason =>
      let shown := pattern.quoted.toString
      s!"Invalid glob pattern {shown}: {reason.message}"
  | .reversedMember => "bad character range"
  | .tooManyExpansions => "too many expansions"

end Error

end PathSearch.Glob
