import Mathlib.Data.List.TakeWhile
import PathSearch.Proofs.Filter.Stages

/-!
Tracing. The global stages and those of a base are two pipelines, of which the second asks the first for one path
after the other, so that the records of both come path by path. Each path is seen as far as the first filter that
rejects it, and no record changes which paths come out.
-/

namespace PathSearch

/-- What asking for paths brings about, in order, until there are no more: a path outside the base is a failure. -/
inductive Feed where
  | ended
  | failed
  | gives (path : Path) (later : Feed)
  | reports (seen : List Sighting) (later : Feed)

namespace Feed

def ofPaths : List Path → Feed
  | [] => .ended
  | path :: rest => .gives path (ofPaths rest)

/-- A pipeline behind other paths. It sends the path it was given through all of its stages before it asks for
another one. -/
def through (stages : List Stage) : Feed → Feed
  | .ended => .ended
  | .failed => .failed
  | .reports seen later => .reports seen (through stages later)
  | .gives path later =>
      match Stage.applyAll stages path with
      | (.pass final, seen) => .reports seen (.gives final (through stages later))
      | (.drop, seen) => .reports seen (through stages later)
      | (.outside, seen) => .reports seen .failed

/-- All paths, and all that is reported meanwhile. -/
def collect : Feed → Option (List Path) × List Sighting
  | .ended => (some [], [])
  | .failed => (none, [])
  | .gives path later => ((collect later).1.map (path :: ·), (collect later).2)
  | .reports seen later => ((collect later).1, seen ++ (collect later).2)

end Feed

/-- A filter as it concerns one path: what tracing says when the path has passed, of which path, and whether
it passes. -/
structure Check where
  said : String
  subject : Path
  passes : Bool

def traceRecord (said : String) (path : Path) : LogRecord :=
  { level := .trace, reporter := .filters, message := s!"{said} {path.toString}" }

namespace Check

def record (check : Check) : LogRecord := traceRecord check.said check.subject

/-- Later checks are made only if all earlier ones are passed. -/
theorem takeWhile_append (first second : List Check) :
    (first ++ second).takeWhile passes =
      first.takeWhile passes ++ if first.all passes then second.takeWhile passes else [] := by
  cases passed : first.all passes with
  | true =>
      have every := List.all_eq_true.mp passed
      rw [List.takeWhile_append_of_pos every, List.takeWhile_eq_self_iff.mpr every, if_pos rfl]
  | false =>
      rw [List.takeWhile_append, if_neg, if_neg (by simp), List.append_nil]
      intro length
      have whole : first.takeWhile passes = first := (List.takeWhile_prefix passes).eq_of_length length
      rw [← whole, List.all_takeWhile] at passed
      cases passed

end Check

namespace Stage

variable {first second stages : List Stage} {path relative : Path}

/-- Two rows of stages in a row: the second sees what the first passes on. -/
theorem applyAll_append (first second : List Stage) (path : Path) :
    applyAll (first ++ second) path =
      match applyAll first path with
      | (.pass next, seen) => ((applyAll second next).1, seen ++ (applyAll second next).2)
      | stopped => stopped := by
  induction first generalizing path with
  | nil => rfl
  | cons stage first ih =>
      rw [List.cons_append, applyAll, applyAll]
      cases applied : stage.apply path with
      | drop => rfl
      | outside => rfl
      | pass next =>
          simp only [ih next]
          obtain ⟨verdict, seen⟩ := applyAll first next
          cases verdict with
          | drop => rfl
          | outside => rfl
          | pass final => simp

/-- The stages make these checks of the path: the first that fails drops it, and those before it are reported
if tracing is on. -/
def Performs (tracing : Bool) (stages : List Stage) (path : Path) (checks : List Check) : Prop :=
  ∀ rest,
    (applyAll (stages ++ rest) path).1 =
        (if checks.all Check.passes then (applyAll rest path).1 else .drop) ∧
      (applyAll (stages ++ rest) path).2.map Sighting.record =
        (if tracing then (checks.takeWhile Check.passes).map Check.record else []) ++
          if checks.all Check.passes then (applyAll rest path).2.map Sighting.record else []

theorem performs_nil (tracing : Bool) (path : Path) : Performs tracing [] path [] := by
  intro rest
  simp

theorem Performs.append {tracing : Bool} {firstChecks secondChecks : List Check}
    (performs : Performs tracing first path firstChecks) (more : Performs tracing second path secondChecks) :
    Performs tracing (first ++ second) path (firstChecks ++ secondChecks) := by
  intro rest
  obtain ⟨verdict, records⟩ := performs (second ++ rest)
  obtain ⟨verdictBehind, recordsBehind⟩ := more rest
  rw [List.append_assoc, verdict, records, verdictBehind, recordsBehind, List.all_append,
    Check.takeWhile_append]
  cases firstChecks.all Check.passes <;> cases tracing <;> simp

/-- A filter with what tracing says behind it. -/
theorem performs_filter {filters : Filters} {stage : Stage} (checkpoint : Checkpoint) (test : stage.IsTest)
    (silent : stage.sightings path = []) :
    Performs filters.tracing (stage :: filters.watch checkpoint) path
      [⟨checkpoint.message, path, stage.lets path⟩] := by
  intro rest
  have applied := apply_eq_keepIf test path
  cases lets : stage.lets path with
  | false =>
      have drops : stage.apply path = .drop := by rw [applied, lets]; rfl
      simp [applyAll, drops, silent]
  | true =>
      have passes : stage.apply path = .pass path := by rw [applied, lets]; rfl
      rw [List.cons_append, applyAll, passes]
      cases tracing : filters.tracing with
      | false => simp [Filters.watch, tracing, silent]
      | true =>
          have said : (Stage.watch checkpoint).sightings path = [⟨checkpoint, path⟩] := rfl
          simp [Filters.watch, tracing, silent, said, applyAll, apply, Sighting.record, Check.record, traceRecord]

/-- A filter that is not configured has no stage and makes no check. -/
theorem performs_unless (filters : Filters) (unset : Prop) [Decidable unset] (stage : Stage)
    (checkpoint : Checkpoint) (path : Path) (test : stage.IsTest) (silent : stage.sightings path = []) :
    Performs filters.tracing (if unset then [] else stage :: filters.watch checkpoint) path
      (if unset then [] else [⟨checkpoint.message, path, stage.lets path⟩]) := by
  by_cases none : unset
  · rw [if_pos none, if_pos none]
    exact performs_nil _ path
  · rw [if_neg none, if_neg none]
    exact performs_filter checkpoint test silent

end Stage

namespace Filters

/-- The configured filters of the global stages, in order. -/
def globalChecks (filters : Filters) (path : Path) : List Check :=
  (if filters.extensions = [] then []
    else [⟨"Passed extension filter", path, filters.extensions.contains (fileExtension path)⟩]) ++
  if filters.absoluteExcludes = [] then []
  else [⟨"Passed exclude absolute filter", path, !isExcluded filters.absoluteExcludes path⟩]

/-- The configured filters of the stages for a base, in order. -/
def relativeChecks (filters : Filters) (rule : IncludeRule) (relative : Path) : List Check :=
  (match rule with
    | .everything => []
    | .anyOf matchers => [⟨"Passed include filter", relative, (IncludeRule.anyOf matchers).accepts relative⟩]) ++
  if filters.relativeExcludes = [] then []
  else [⟨"Passed exclude relative filter", relative, !isExcluded filters.relativeExcludes relative⟩]

/-- All checks of a path found under a base: first as it is, then as it is seen from the base. -/
def checks (filters : Filters) (group : BaseGroup) (path : Path) : List Check :=
  filters.globalChecks path ++ (path.relativeTo? group.base).elim [] (filters.relativeChecks group.rule)

/-- What tracing reports of a path: that it was found, and which filters it has passed before the first that
rejects it. -/
def traceOf (filters : Filters) (group : BaseGroup) (path : Path) : List LogRecord :=
  traceRecord "Found" path :: ((filters.checks group path).takeWhile Check.passes).map Check.record

/-- What becomes of a path that passes all checks: stages for a base make it relative and absolute again. -/
def restored (filters : Filters) (current : Path) (group : BaseGroup) (path : Path) : Path :=
  (path.relativeTo? group.base).elim path fun relative =>
    if filters.relativeChecks group.rule relative = [] then path
    else Path.normalize current (group.base ++ relative)

/-- The stages for a base behind the global ones. -/
def chained (filters : Filters) (current : Path) (group : BaseGroup) (paths : List Path) : Feed :=
  ((Feed.ofPaths paths).through filters.globalStages).through (filters.stagesFor current group)

variable {filters : Filters} {group : BaseGroup} {path relative : Path}

theorem performs_globalStages (filters : Filters) (path : Path) :
    Stage.Performs filters.tracing filters.globalStages path
      (⟨"Found", path, true⟩ :: filters.globalChecks path) := by
  have found : Stage.Performs filters.tracing (filters.watch .found) path [⟨"Found", path, true⟩] := by
    intro rest
    have said : (Stage.watch .found).sightings path = [⟨.found, path⟩] := rfl
    cases tracing : filters.tracing with
    | false => simp [watch, tracing]
    | true =>
        simp [watch, tracing, said, Stage.applyAll, Stage.apply, Sighting.record, Check.record, traceRecord,
          Checkpoint.message]
  have extension := Stage.performs_unless filters (filters.extensions = []) (.extension filters.extensions)
    .passedExtension path trivial rfl
  have exclude := Stage.performs_unless filters (filters.absoluteExcludes = [])
    (.absoluteExclude filters.absoluteExcludes) .passedAbsoluteExclude path trivial rfl
  exact (found.append extension).append exclude

theorem performs_relativeTests (filters : Filters) (rule : IncludeRule) (relative : Path) :
    Stage.Performs filters.tracing (filters.relativeTests rule) relative (filters.relativeChecks rule relative) := by
  have exclude := Stage.performs_unless filters (filters.relativeExcludes = [])
    (.relativeExclude filters.relativeExcludes) .passedRelativeExclude relative trivial rfl
  cases rule with
  | everything => exact exclude
  | anyOf matchers =>
      have including : Stage.Performs filters.tracing (.include matchers :: filters.watch .passedInclude) relative
          [⟨"Passed include filter", relative, (IncludeRule.anyOf matchers).accepts relative⟩] :=
        Stage.performs_filter .passedInclude trivial rfl
      exact including.append exclude

theorem relativeTests_eq_nil_iff (filters : Filters) (rule : IncludeRule) (relative : Path) :
    filters.relativeTests rule = [] ↔ filters.relativeChecks rule relative = [] := by
  cases rule <;> by_cases unset : filters.relativeExcludes = [] <;> simp [relativeTests, relativeChecks, unset]

section Below

variable (filters : Filters) (current : Path) (below : path.relativeTo? group.base = some relative)

include below

theorem applyAll_stagesFor :
    (Stage.applyAll (filters.stagesFor current group) path).1 =
        (if (filters.relativeChecks group.rule relative).all Check.passes then
          .pass (filters.restored current group path)
        else .drop) ∧
      (Stage.applyAll (filters.stagesFor current group) path).2.map Sighting.record =
        if filters.tracing then
          ((filters.relativeChecks group.rule relative).takeWhile Check.passes).map Check.record
        else [] := by
  rw [stagesFor_eq, restored, below, Option.elim_some]
  by_cases none : filters.relativeTests group.rule = []
  · have unchecked := (relativeTests_eq_nil_iff filters group.rule relative).mp none
    simp [none, unchecked, Stage.applyAll]
  · have checked := mt (relativeTests_eq_nil_iff filters group.rule relative).mpr none
    have away : (Stage.relativize group.base).apply path = .pass relative := by
      simp only [Stage.apply, below]
    obtain ⟨verdict, records⟩ :=
      performs_relativeTests filters group.rule relative [.absolutize current group.base]
    rw [if_neg none, if_neg checked, Stage.applyAll, away]
    exact ⟨verdict, by simpa [Stage.sightings, Stage.applyAll, Stage.apply] using records⟩

/-- What all stages together do to one path found under the base. -/
theorem applyAll_stages :
    let stages := filters.globalStages ++ filters.stagesFor current group
    (Stage.applyAll stages path).1 =
        (if (filters.checks group path).all Check.passes then .pass (filters.restored current group path)
          else .drop) ∧
      (Stage.applyAll stages path).2.map Sighting.record =
        if filters.tracing then filters.traceOf group path else [] := by
  intro stages
  obtain ⟨verdict, records⟩ := performs_globalStages filters path (filters.stagesFor current group)
  obtain ⟨verdictBehind, recordsBehind⟩ := applyAll_stagesFor filters current below
  rw [verdict, records, verdictBehind, recordsBehind, traceOf, checks, below, Option.elim_some,
    List.all_append, Check.takeWhile_append]
  cases all : (filters.globalChecks path).all Check.passes <;> cases filters.tracing <;>
    simp [all, Check.record]

end Below

/-- Two pipelines in a row do what all their stages do in one. -/
theorem collect_through_through (first second : List Stage) (paths : List Path) :
    (((Feed.ofPaths paths).through first).through second).collect = run (first ++ second) paths := by
  induction paths with
  | nil => rfl
  | cons path rest ih =>
      rw [Feed.ofPaths, Feed.through, run, Stage.applyAll_append]
      obtain ⟨verdict, seen⟩ := Stage.applyAll first path
      cases verdict with
      | outside => simp [Feed.through, Feed.collect]
      | drop => simp [Feed.through, Feed.collect, ih]
      | pass next =>
          cases judged : Stage.applyAll second next with
          | mk verdict more => cases verdict <;> simp [Feed.through, Feed.collect, judged, ih]

/-- A run over paths below the base passes on those that pass all checks, and the records of each path come
before those of the next one. -/
theorem run_stages (filters : Filters) (current : Path) {paths : List Path}
    (below : ∀ path ∈ paths, (path.relativeTo? group.base).isSome) :
    let stages := filters.globalStages ++ filters.stagesFor current group
    (run stages paths).1 =
        some ((paths.filter fun path => (filters.checks group path).all Check.passes).map
          (filters.restored current group)) ∧
      (run stages paths).2.map Sighting.record =
        if filters.tracing then paths.flatMap (filters.traceOf group) else [] := by
  intro stages
  induction paths with
  | nil => simp [run]
  | cons path rest ih =>
      rw [List.forall_mem_cons] at below
      obtain ⟨relative, inside⟩ := Option.isSome_iff_exists.mp below.1
      obtain ⟨found, records⟩ := ih below.2
      obtain ⟨verdict, seen⟩ := applyAll_stages filters current inside
      rw [run]
      cases judged : Stage.applyAll stages path with
      | mk result reported =>
          rw [judged] at verdict seen
          have reports : (reported ++ (run stages rest).2).map Sighting.record =
              if filters.tracing then (path :: rest).flatMap (filters.traceOf group) else [] := by
            rw [List.map_append, seen, records]
            cases filters.tracing <;> simp
          cases passes : (filters.checks group path).all Check.passes with
          | true =>
              obtain rfl : result = .pass (filters.restored current group path) := by simpa [passes] using verdict
              exact ⟨by simp [found, passes], reports⟩
          | false =>
              obtain rfl : result = .drop := by simpa [passes] using verdict
              exact ⟨by simp [found, passes], reports⟩

/-- Tracing does not change which paths come out of the two pipelines. It reports of every path, in the order of
the paths, that it was found and which of the configured filters it has passed before the first that rejects it:
the global filters name the path as it is, those of the base name it as seen from the base. -/
theorem chained_tracing (current : Path) (extensions : List Text)
    (absoluteExcludes relativeExcludes : List Glob.Matcher) (group : BaseGroup) (paths : List Path)
    (below : ∀ path ∈ paths, (path.relativeTo? group.base).isSome) :
    let compiled := Filters.mk (normalExtensions extensions) absoluteExcludes relativeExcludes
    ∃ found seen,
      ((compiled false).chained current group paths).collect = (some found, []) ∧
        ((compiled true).chained current group paths).collect = (some found, seen) ∧
          found = (paths.filter fun path => ((compiled false).checks group path).all Check.passes).map
            ((compiled false).restored current group) ∧
          seen.map Sighting.record = paths.flatMap ((compiled false).traceOf group) := by
  intro compiled
  obtain ⟨plain, silent⟩ := run_stages (compiled false) current below
  obtain ⟨traced, records⟩ := run_stages (compiled true) current below
  refine ⟨_, ((compiled true).chained current group paths).collect.2, ?_, ?_, rfl, ?_⟩
  · rw [chained, collect_through_through]
    exact Prod.ext plain (List.map_eq_nil_iff.mp silent)
  · rw [chained, collect_through_through]
    exact Prod.ext traced rfl
  · rw [chained, collect_through_through]
    exact records

/-- The first path passes an extension and an include filter; the second one is rejected by the extension. -/
theorem chained_tracing_extension :
    let group : BaseGroup := ⟨Path.ofString "/b", .anyOf [.everything]⟩
    let paths := [Path.ofString "/b/a.py", Path.ofString "/b/c.txt"]
    let compiled := Filters.mk (normalExtensions [" .PY".toList]) [] []
    (∀ path ∈ paths, (path.relativeTo? group.base).isSome) ∧
      ((compiled false).chained .root group paths).collect = (some [Path.ofString "/b/a.py"], []) ∧
        ∃ seen, ((compiled true).chained .root group paths).collect = (some [Path.ofString "/b/a.py"], seen) ∧
          (seen.map Sighting.record).map LogRecord.message =
            ["Found /b/a.py", "Passed extension filter /b/a.py", "Passed include filter a.py",
              "Found /b/c.txt"] := by
  intro group paths compiled
  have below : ∀ path ∈ paths, (path.relativeTo? group.base).isSome := by decide +kernel
  obtain ⟨found, seen, plain, traced, kept, records⟩ :=
    chained_tracing .root [" .PY".toList] [] [] group paths below
  obtain rfl : found = [Path.ofString "/b/a.py"] := kept.trans (by decide +kernel)
  refine ⟨below, plain, seen, traced, ?_⟩
  rw [records]
  decide +kernel

end Filters

end PathSearch
