import PathSearch.Proofs.Merge.Delivery
import PathSearch.Proofs.Results
import PathSearch.Proofs.Scope.Excluded
import PathSearch.Proofs.Scope.Rule
import PathSearch.Proofs.Search.Course
import PathSearch.Search

/-! The meaning of a query: what a search finds is what the walks of its bases come by and its filters
want, each path once and unchanged. -/

namespace PathSearch

namespace Query

/-- The query wants a path that lies under the base of a group, `relative` being the path as it is seen
from there. An exclude glob is tested against the whole path when it is absolute and against the
relative one otherwise. -/
def Wants (query : Query) (rule : IncludeRule) (path relative : Path) : Prop :=
  ((∀ extension ∈ query.allowedExtensions, Text.strip extension = []) ∨
      fileExtension path ∈ Filters.normalExtensions query.allowedExtensions) ∧
    rule.accepts relative = true ∧
    ∀ glob ∈ usableGlobs query.excludeGlobs, ∀ matcher, Glob.compile glob = .ok matcher →
      matcher.accepts (if isAbsoluteGlob glob then path else relative) = false

def walkOptions (query : Query) : WalkOptions :=
  ⟨query.maxDepth.map Int.ofNat, query.onlyFiles, query.followLinks⟩

end Query

section Wanted

variable {query : Query} {tracing : Bool} {filters : Filters}

theorem normalExtensions_eq_nil_iff {extensions : List Text} :
    Filters.normalExtensions extensions = [] ↔
      ∀ extension ∈ extensions, Text.strip extension = [] := by
  simp [Filters.normalExtensions]

theorem isExcluded_eq_false_iff {globs : List Text} {matchers : List Glob.Matcher} {path : Path}
    (compiled : compileExcludes (Text.sort globs) = .ok matchers) :
    isExcluded matchers path = false ↔
      ∀ glob ∈ globs, ∀ matcher, Glob.compile glob = .ok matcher → matcher.accepts path = false := by
  rw [← Bool.not_eq_true, isExcluded_iff compiled]
  simp [Matches]

theorem keeps_iff_wants (made : Filters.ofQuery query tracing = .ok filters) {rule : IncludeRule}
    {path relative : Path} :
    filters.keeps rule path relative = true ↔ query.Wants rule path relative := by
  obtain ⟨absolute, absoluteMade, rest⟩ := bind_eq_ok.mp made
  obtain ⟨relatives, relativeMade, last⟩ := bind_eq_ok.mp rest
  cases last
  simp only [Filters.keeps, Query.Wants, Bool.and_eq_true, Bool.not_eq_true', Bool.or_eq_true,
    isExcluded_eq_false_iff absoluteMade, isExcluded_eq_false_iff relativeMade, List.isEmpty_iff,
    normalExtensions_eq_nil_iff, List.contains_eq_mem, decide_eq_true_eq]
  constructor
  · intro found
    obtain ⟨⟨extension, clear⟩, accepted, relativeClear⟩ := found
    refine ⟨extension, accepted, ?_⟩
    intro glob member matcher compiled
    cases rooted : isAbsoluteGlob glob with
    | true => exact clear glob (List.mem_filter.mpr ⟨member, rooted⟩) matcher compiled
    | false =>
        have inside : glob ∈ (usableGlobs query.excludeGlobs).filter fun glob =>
            !isAbsoluteGlob glob := List.mem_filter.mpr ⟨member, by simp [rooted]⟩
        exact relativeClear glob inside matcher compiled
  · intro found
    obtain ⟨extension, accepted, clear⟩ := found
    refine ⟨⟨extension, ?_⟩, accepted, ?_⟩
    · intro glob member matcher compiled
      obtain ⟨usable, rooted⟩ := List.mem_filter.mp member
      simpa [rooted] using clear glob usable matcher compiled
    · intro glob member matcher compiled
      obtain ⟨usable, free⟩ := List.mem_filter.mp member
      simp only [Bool.not_eq_true'] at free
      simpa [free] using clear glob usable matcher compiled

end Wanted

section Bases

variable {current start : Path}

theorem isNormal_baseOf (absolute : current.IsAbsolute) (normal : start.IsNormal) (glob : Text) :
    (LocatedGlob.baseOf current start glob).IsNormal := by
  simp only [LocatedGlob.baseOf]
  split
  · exact Path.isNormal_normalize absolute _
  · split
    · exact normal
    · exact Path.isNormal_normalize absolute _

theorem isNormal_of_mem_ofGlobs (absolute : current.IsAbsolute) (normal : start.IsNormal)
    {globs : List Text} {groups : List BaseGroup}
    (made : BaseGroup.ofGlobs current start globs = .ok groups) {group : BaseGroup}
    (member : group ∈ groups) : group.base.IsNormal := by
  obtain ⟨located, mapped, last⟩ := bind_eq_ok.mp made
  simp only [pure, Except.pure, Except.ok.injEq] at last
  subst last
  split at member
  · cases List.mem_singleton.mp member
    exact normal
  · simp only [BaseGroup.ofLocated, List.mem_map, List.mem_eraseDups] at member
    obtain ⟨base, ⟨glob, inside, rfl⟩, rfl⟩ := member
    obtain ⟨source, -, located⟩ := (mem_iff_of_mapM mapped).mp inside
    rw [LocatedGlob.base_ofGlob located]
    exact isNormal_baseOf absolute normal source

end Bases

namespace Search

/-- The walk of one of the bases that open comes by the path, and the query wants it there. -/
def Finds (search : Search) (path : Path) : Prop :=
  ∃ group ∈ search.groups, ∃ walk,
    Walk.start search.system search.query.walkOptions group.base = .ok walk ∧
      (∃ kind, .entry path kind ∈ Walk.toList search.system search.query.walkOptions walk) ∧
      ∃ relative, path.relativeTo? group.base = some relative ∧
        search.query.Wants group.rule path relative

/-- The scans as the merge sees them. -/
def scripts (search : Search) : List (Merge.Script Path ScanError) :=
  search.courses.map ScanPlan.Course.script

variable {system : FileSystem} {query : Query} {tracing : Bool} {search : Search}

theorem ofQuery_eq_ok (made : ofQuery system query tracing = .ok search) :
    search.system = system ∧ search.query = query ∧
      BaseGroup.ofGlobs system.current (query.normalizedBaseDir system.current) query.includeGlobs =
        .ok search.groups ∧
      Filters.ofQuery query tracing = .ok search.filters := by
  obtain ⟨groups, grouped, rest⟩ := bind_eq_ok.mp made
  obtain ⟨filters, filtered, last⟩ := bind_eq_ok.mp rest
  cases last
  exact ⟨rfl, rfl, grouped, filtered⟩

theorem isNormal_base (absolute : system.current.IsAbsolute)
    (made : ofQuery system query tracing = .ok search) {group : BaseGroup}
    (member : group ∈ search.groups) : group.base.IsNormal := by
  obtain ⟨-, -, grouped, -⟩ := ofQuery_eq_ok made
  exact isNormal_of_mem_ofGlobs absolute (Path.isNormal_normalize absolute _) grouped member

/-- What a walk comes by is a normal path, which making it relative and absolute again gives back. -/
theorem round_trip (absolute : system.current.IsAbsolute)
    (made : ofQuery system query tracing = .ok search) {group : BaseGroup}
    (member : group ∈ search.groups) {walk : Walk}
    (opened : Walk.start system query.walkOptions group.base = .ok walk) {path : Path} {kind : Bool}
    (walked : .entry path kind ∈ Walk.toList system query.walkOptions walk) :
    path.IsNormal ∧ ∃ relative, path.relativeTo? group.base = some relative ∧
      Path.normalize system.current (group.base ++ relative) = path := by
  let plan := ScanPlan.ofQuery system query search.filters group
  have normal : plan.group.base.IsNormal := isNormal_base absolute made member
  exact ScanPlan.entry_round_trip normal opened walked

theorem Finds.normalize_eq_self (absolute : system.current.IsAbsolute)
    (made : ofQuery system query tracing = .ok search) {path : Path} (finds : search.Finds path) :
    path.IsAbsolute ∧ Path.normalize system.current path = path := by
  obtain ⟨rfl, rfl, -, -⟩ := ofQuery_eq_ok made
  obtain ⟨group, member, walk, opened, ⟨kind, walked⟩, -⟩ := finds
  obtain ⟨normal, -⟩ := round_trip absolute made member opened walked
  exact ⟨normal.1, Path.normalize_eq_self _ normal⟩

/-- The course of the scan of one base. -/
def courseAt (search : Search) (group : BaseGroup) : ScanPlan.Course :=
  match (ScanPlan.ofQuery search.system search.query search.filters group).course with
  | .ok course => course
  | .error error => ⟨[], [], some error⟩

theorem courses_eq (search : Search) : search.courses = search.groups.map search.courseAt := rfl

theorem mem_scripts {script : Merge.Script Path ScanError} :
    script ∈ search.scripts ↔ ∃ group ∈ search.groups, (search.courseAt group).script = script := by
  simp [scripts, courses_eq]

/-- Every scan of the search comes to look for paths. -/
def Begins (search : Search) : Prop :=
  ∀ group ∈ search.groups, (ScanPlan.ofQuery search.system search.query search.filters group).Begins

section Begun

variable (absolute : system.current.IsAbsolute)
  (made : ofQuery system query tracing = .ok search) (begins : search.Begins)

include absolute made begins

theorem courseAt_spec {group : BaseGroup} (member : group ∈ search.groups) :
    (search.courseAt group).failure = none ∧
      ∀ path, path ∈ (search.courseAt group).paths ↔ ∃ walk,
        Walk.start system query.walkOptions group.base = .ok walk ∧
          (∃ kind, .entry path kind ∈ Walk.toList system query.walkOptions walk) ∧
          ∃ relative, path.relativeTo? group.base = some relative ∧
            query.Wants group.rule path relative := by
  have normal := isNormal_base absolute made member
  obtain ⟨rfl, rfl, -, filtered⟩ := ofQuery_eq_ok made
  let plan := ScanPlan.ofQuery search.system search.query search.filters group
  obtain ⟨course, scanned, unfailed, found⟩ := @ScanPlan.exists_course plan normal (begins group member)
  have same : search.courseAt group = course := by
    simp only [courseAt]
    rw [show (ScanPlan.ofQuery search.system search.query search.filters group).course = .ok course
      from scanned]
  rw [same]
  refine ⟨unfailed, ?_⟩
  intro path
  rw [found path]
  simp only [ScanPlan.Keeps, ← keeps_iff_wants filtered]
  rfl

theorem exists_script_iff_finds {path : Path} :
    (∃ script ∈ search.scripts, path ∈ script.items) ↔ search.Finds path := by
  have spec := fun {group} (member : group ∈ search.groups) =>
    courseAt_spec absolute made begins member
  obtain ⟨rfl, rfl, -, -⟩ := ofQuery_eq_ok made
  constructor
  · intro found
    obtain ⟨script, member, given⟩ := found
    obtain ⟨group, inside, rfl⟩ := mem_scripts.mp member
    exact ⟨group, inside, ((spec inside).2 path).mp given⟩
  · intro found
    obtain ⟨group, inside, walked⟩ := found
    exact ⟨_, mem_scripts.mpr ⟨group, inside, rfl⟩, ((spec inside).2 path).mpr walked⟩

end Begun

end Search

end PathSearch
