import PathSearch.Glob.Braces
import PathSearch.Glob.Form
import PathSearch.Path.Basic

namespace PathSearch.Glob

/-- A test of paths. `everything` accepts every path; a compiled matcher keeps the trimmed pattern
it was made from and accepts what one of its forms accepts. -/
inductive Matcher where
  | everything
  | compiled (pattern : Text) (forms : List Form)
  deriving DecidableEq, Repr

/-- A backslash is read as a slash, in patterns and in paths. -/
def slashed (text : Text) : Text := text.replace '\\' '/'

/-- The part of a path text that matchers look at: without its leading root or dot. -/
def subject (text : Text) : Text :=
  match slashed text with
  | '/' :: rest => rest
  | '.' :: '/' :: rest => rest
  | ['.'] => []
  | rest => rest

namespace Matcher

def pattern : Matcher → Text
  | .everything => globstar
  | .compiled pattern _ => pattern

def acceptsText : Matcher → Text → Bool
  | .everything, _ => true
  | .compiled _ forms, text => forms.any fun form => form.accepts (subject text)

def accepts (matcher : Matcher) (path : Path) : Bool := matcher.acceptsText path.text

end Matcher

def trimmed (pattern : Text) : Text := slashed pattern.strip

def formsOf (pattern alternative : Text) : Except Error (List Form) := do
  (checkClasses alternative).mapError (.malformed pattern)
  if expansionLimit < starExpansions alternative then throw .tooManyExpansions
  (expandStars alternative).mapM fun glob =>
    match formOf? glob with
    | some form => .ok form
    | none => .error .reversedMember

/-- Compiles a pattern. Every alternative of its braces has to be well formed. -/
def compile (pattern : Text) : Except Error Matcher := do
  let normal := trimmed pattern
  if normal = [] then throw (.malformed pattern .empty)
  if expansionLimit < groupExpansions normal then throw .tooManyExpansions
  let globs ← (alternatives normal).mapError (.malformed pattern)
  let forms ← globs.mapM (formsOf pattern)
  return .compiled normal forms.flatten

end PathSearch.Glob
