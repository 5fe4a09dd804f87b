import PathSearch.Proofs.Scope.Rule
import PathSearch.Proofs.Search.Meaning

/-! Include globs add up: what a search finds for two sets of them together is what it finds for the one
and what it finds for the other. -/

namespace PathSearch

namespace Query

variable {query : Query} {system : FileSystem} {path relative : Path}

/-- The query with these include globs in place of its own. -/
def including (query : Query) (globs : List Text) : Query := { query with includeGlobs := globs }

/-- The path is found because of the glob: the walk of the glob's base comes by it, and the query would
want it there if this were its only include glob. -/
def Reaches (query : Query) (system : FileSystem) (glob : Text) (path : Path) : Prop :=
  ∃ located, LocatedGlob.ofGlob system.current (query.normalizedBaseDir system.current) glob =
      .ok located ∧
    ∃ walk, Walk.start system query.walkOptions located.base = .ok walk ∧
      (∃ kind, .entry path kind ∈ Walk.toList system query.walkOptions walk) ∧
      ∃ relative, path.relativeTo? located.base = some relative ∧
        query.Wants (.anyOf [located.matcher]) path relative

end Query

namespace Search

variable {system : FileSystem} {query : Query} {tracing : Bool} {search : Search}

/-- Some order in which the scans of the search are merged gives these paths and ends without a
failure. -/
def Gives (search : Search) (paths : List Path) : Prop :=
  ∃ (limits : Merge.Limits) (trace : Merge.Trace Path ScanError),
    0 < limits.workers ∧ 0 < limits.capacity ∧ Merge.Traced limits search.scripts trace ∧
      trace.EndsNormally ∧ trace.yielded = paths

section Begun

variable (absolute : system.current.IsAbsolute)
  (made : ofQuery system query tracing = .ok search) (begins : search.Begins)

include absolute made begins

end Begun

section Split

variable {globs globs₁ globs₂ : List Text} {whole first second : Search}
  (usable₁ : usableGlobs globs₁ ≠ []) (usable₂ : usableGlobs globs₂ ≠ [])
  (same : ∀ glob, glob ∈ usableGlobs globs ↔ glob ∈ usableGlobs globs₁ ∨ glob ∈ usableGlobs globs₂)

include usable₁ same

include usable₂

end Split

end Search

end PathSearch
