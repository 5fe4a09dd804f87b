import PathSearch.Text.Digit
import PathSearch.Search
import PathSearch.Settings.File
import PathSearch.Main
import PathSearch.Number.Shortest
import PathSearch.Proofs.Search.Globs
import PathSearch.Proofs.Search.Meaning
import PathSearch.Proofs.Search.Notices
import PathSearch.Proofs.Search.Refusal
import PathSearch.Proofs.Path.Normal
import PathSearch.Proofs.Tree.Resolve
import PathSearch.Proofs.Walk.Below
import PathSearch.Proofs.Walk.Opens
import PathSearch.Proofs.Walk.Faultless
import PathSearch.Proofs.Walk.Loops
import PathSearch.Proofs.Walk.Loss
import PathSearch.Proofs.Walk.Reports
import PathSearch.Proofs.Walk.Visit
import PathSearch.Proofs.Filter.Stages
import PathSearch.Proofs.Results
import PathSearch.Proofs.Search.Course
import PathSearch.Proofs.Glob.Covering
import PathSearch.Proofs.Glob.Dialect
import PathSearch.Proofs.Glob.Spread
import PathSearch.Proofs.Glob.Segment
import PathSearch.Proofs.Glob.Names
import PathSearch.Proofs.Glob.Expanded
import PathSearch.Proofs.Glob.Classes
import PathSearch.Proofs.Glob.Legible
import PathSearch.Proofs.Glob.Outcome
import PathSearch.Proofs.Glob.Compiled
import PathSearch.Proofs.Glob.Plain
import PathSearch.Proofs.Glob.Cut
import PathSearch.Proofs.Scope.Residual
import PathSearch.Proofs.Scope.Located
import PathSearch.Proofs.Merge.Closing
import PathSearch.Proofs.Merge.Waiting
import PathSearch.Proofs.Scope.Rule
import PathSearch.Proofs.Search.Includes
import PathSearch.Proofs.Walk.Custody
import PathSearch.Proofs.Search.Handles
import PathSearch.Proofs.Glob.Levels
import PathSearch.Proofs.Walk.Links
import PathSearch.Proofs.Settings.Loading
import PathSearch.Proofs.Command.Marks
import PathSearch.Proofs.Command.Kept
import PathSearch.Proofs.Tree.Canonical
import PathSearch.Proofs.Glob.Rooted
import PathSearch.Proofs.Glob.Alternatives
import PathSearch.Proofs.Glob.Deeper
import PathSearch.Proofs.Scope.Excluded
import PathSearch.Proofs.Walk.Recursion
import PathSearch.Proofs.Walk.Limits
import PathSearch.Proofs.Glob.Chosen
import PathSearch.Proofs.Scope.Directory
import PathSearch.Proofs.Settings.Nearest
import PathSearch.Proofs.Command.Apart
import PathSearch.Proofs.Scope.Parts
import PathSearch.Proofs.Settings.Merged
import PathSearch.Proofs.Glob.Stepwise
import PathSearch.Proofs.Scope.Lexical
import PathSearch.Proofs.Filter.Tracing
import PathSearch.Proofs.Command.Sorted
