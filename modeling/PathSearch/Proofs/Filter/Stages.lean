import PathSearch.Filter.Basic
import PathSearch.Proofs.Path.Normal

/-! What the stages of a search do to a path found under a base: they keep it as it is or drop it. -/

namespace PathSearch

namespace Stage

/-- The stage looks at a path without changing it. -/
def IsTest : Stage → Prop
  | .relativize _ => False
  | .absolutize _ _ => False
  | _ => True

/-- Whether a stage that is a test lets the path through. -/
def lets : Stage → Path → Bool
  | .extension allowed, path => allowed.contains (fileExtension path)
  | .absoluteExclude matchers, path => !isExcluded matchers path
  | .include matchers, path => (IncludeRule.anyOf matchers).accepts path
  | .relativeExclude matchers, path => !isExcluded matchers path
  | _, _ => true

variable {stage : Stage} {stages rest : List Stage} {path : Path}

theorem apply_eq_keepIf (test : stage.IsTest) (path : Path) :
    stage.apply path = keepIf (stage.lets path) path := by
  cases stage with
  | relativize base => exact test.elim
  | absolutize current base => exact test.elim
  | watch checkpoint => rfl
  | extension allowed => rfl
  | absoluteExclude matchers => rfl
  | «include» matchers => rfl
  | relativeExclude matchers => rfl

theorem verdict_cons_of_pass {next : Path} (passes : stage.apply path = .pass next) :
    (applyAll (stage :: rest) path).1 = (applyAll rest next).1 := by
  simp only [applyAll, passes]

theorem verdict_cons_of_drop (drops : stage.apply path = .drop) :
    (applyAll (stage :: rest) path).1 = .drop := by
  simp only [applyAll, drops]

/-- Tests in front of other stages decide whether these are reached. -/
theorem verdict_append (tests : ∀ stage ∈ stages, stage.IsTest) (rest : List Stage) (path : Path) :
    (applyAll (stages ++ rest) path).1 =
      if stages.all (fun stage => stage.lets path) then (applyAll rest path).1 else .drop := by
  induction stages with
  | nil => simp
  | cons stage stages ih =>
      have applied := apply_eq_keepIf (tests stage (List.mem_cons_self ..)) path
      cases lets : stage.lets path with
      | true =>
          have passes : stage.apply path = .pass path := by rw [applied, lets]; rfl
          rw [List.cons_append, verdict_cons_of_pass passes,
            ih fun other member => tests other (List.mem_cons_of_mem _ member)]
          simp [lets]
      | false =>
          have drops : stage.apply path = .drop := by rw [applied, lets]; rfl
          rw [List.cons_append, verdict_cons_of_drop drops]
          simp [lets]

end Stage

namespace Filters

variable {filters : Filters} {group : BaseGroup} {path relative : Path}

/-- Whether a path goes through all stages, given as it is and as it is seen from its base. -/
def keeps (filters : Filters) (rule : IncludeRule) (path relative : Path) : Bool :=
  (filters.extensions.isEmpty || filters.extensions.contains (fileExtension path)) &&
    !isExcluded filters.absoluteExcludes path &&
    (rule.accepts relative && !isExcluded filters.relativeExcludes relative)

theorem isTest_of_mem_watch {checkpoint : Checkpoint} {stage : Stage}
    (member : stage ∈ filters.watch checkpoint) : stage.IsTest := by
  unfold watch at member
  split at member
  · cases List.mem_singleton.mp member
    trivial
  · simp at member

theorem all_lets_watch (filters : Filters) (checkpoint : Checkpoint) (path : Path) :
    (filters.watch checkpoint).all (fun stage => stage.lets path) = true := by
  unfold watch
  split <;> simp [Stage.lets]

theorem all_lets_cons_watch (filters : Filters) (stage : Stage) (checkpoint : Checkpoint)
    (path : Path) :
    (stage :: filters.watch checkpoint).all (fun stage => stage.lets path) = stage.lets path := by
  rw [List.all_cons, all_lets_watch, Bool.and_true]

theorem isTest_of_mem_globalStages {stage : Stage} (member : stage ∈ filters.globalStages) :
    stage.IsTest := by
  simp only [globalStages, List.mem_append] at member
  rcases member with (member | member) | member
  · exact isTest_of_mem_watch member
  · split at member
    · simp at member
    · rcases List.mem_cons.mp member with rfl | member
      · trivial
      · exact isTest_of_mem_watch member
  · split at member
    · simp at member
    · rcases List.mem_cons.mp member with rfl | member
      · trivial
      · exact isTest_of_mem_watch member

theorem isExcluded_nil (path : Path) : isExcluded [] path = false := rfl

theorem all_lets_globalStages (filters : Filters) (path : Path) :
    filters.globalStages.all (fun stage => stage.lets path) =
      ((filters.extensions.isEmpty || filters.extensions.contains (fileExtension path)) &&
        !isExcluded filters.absoluteExcludes path) := by
  simp only [globalStages, List.all_append, all_lets_watch, Bool.true_and]
  congr 1
  · by_cases unset : filters.extensions = []
    · simp [unset]
    · rw [if_neg unset, all_lets_cons_watch]
      simp [unset, Stage.lets]
  · by_cases unset : filters.absoluteExcludes = []
    · simp [unset, isExcluded_nil]
    · rw [if_neg unset, all_lets_cons_watch]
      rfl

/-- The tests made on a path as it is seen from its base. -/
def relativeTests (filters : Filters) (rule : IncludeRule) : List Stage :=
  (match rule with
    | .everything => []
    | .anyOf matchers => .include matchers :: filters.watch .passedInclude) ++
    if filters.relativeExcludes = [] then []
    else .relativeExclude filters.relativeExcludes :: filters.watch .passedRelativeExclude

theorem stagesFor_eq (filters : Filters) (current : Path) (group : BaseGroup) :
    filters.stagesFor current group =
      if filters.relativeTests group.rule = [] then []
      else .relativize group.base ::
        (filters.relativeTests group.rule ++ [.absolutize current group.base]) := by
  unfold stagesFor relativeTests
  cases group.rule <;> simp

theorem isTest_of_mem_relativeTests {rule : IncludeRule} {stage : Stage}
    (member : stage ∈ filters.relativeTests rule) : stage.IsTest := by
  rcases List.mem_append.mp member with member | member
  · cases rule with
    | everything => simp at member
    | anyOf matchers =>
        rcases List.mem_cons.mp member with rfl | member
        · trivial
        · exact isTest_of_mem_watch member
  · split at member
    · simp at member
    · rcases List.mem_cons.mp member with rfl | member
      · trivial
      · exact isTest_of_mem_watch member

theorem all_lets_relativeTests (filters : Filters) (rule : IncludeRule) (relative : Path) :
    (filters.relativeTests rule).all (fun stage => stage.lets relative) =
      (rule.accepts relative && !isExcluded filters.relativeExcludes relative) := by
  simp only [relativeTests, List.all_append]
  congr 1
  · cases rule with
    | everything => rfl
    | anyOf matchers => exact all_lets_cons_watch filters _ _ relative
  · by_cases unset : filters.relativeExcludes = []
    · simp [unset, isExcluded_nil]
    · rw [if_neg unset, all_lets_cons_watch]
      rfl

/-- The stages for a base make a path below it relative, test it and make it absolute again. -/
theorem verdict_stagesFor_of_relativeTo? (current : Path)
    (below : path.relativeTo? group.base = some relative) :
    (Stage.applyAll (filters.stagesFor current group) path).1 =
      if group.rule.accepts relative && !isExcluded filters.relativeExcludes relative then
        .pass (if filters.relativeTests group.rule = [] then path
          else Path.normalize current (group.base ++ relative))
      else .drop := by
  rw [stagesFor_eq, ← all_lets_relativeTests]
  by_cases none : filters.relativeTests group.rule = []
  · simp [none, Stage.applyAll]
  · have away : (Stage.relativize group.base).apply path = .pass relative := by
      simp only [Stage.apply, below]
    rw [if_neg none, if_neg none, Stage.verdict_cons_of_pass away,
      Stage.verdict_append (fun _ member => isTest_of_mem_relativeTests member)]
    rfl

/-- On a normal path below the base, the stages for that base give back the very path. -/
theorem verdict_stagesFor (current : Path) (normal : path.IsNormal)
    (below : path.relativeTo? group.base = some relative) :
    (Stage.applyAll (filters.stagesFor current group) path).1 =
      if group.rule.accepts relative && !isExcluded filters.relativeExcludes relative then .pass path
      else .drop := by
  rw [verdict_stagesFor_of_relativeTo? current below,
    Path.normalize_append_of_relativeTo? current normal below, ite_self]

theorem verdict_stages_ne_outside (filters : Filters) (current : Path)
    (below : path.relativeTo? group.base = some relative) :
    (Stage.applyAll (filters.globalStages ++ filters.stagesFor current group) path).1 ≠ .outside := by
  rw [Stage.verdict_append (fun _ member => isTest_of_mem_globalStages member),
    verdict_stagesFor_of_relativeTo? current below]
  split
  · split <;> simp
  · simp

theorem verdict_stages (filters : Filters) (current : Path) (normal : path.IsNormal)
    (below : path.relativeTo? group.base = some relative) :
    (Stage.applyAll (filters.globalStages ++ filters.stagesFor current group) path).1 =
      if filters.keeps group.rule path relative then .pass path else .drop := by
  rw [Stage.verdict_append (fun _ member => isTest_of_mem_globalStages member),
    all_lets_globalStages, verdict_stagesFor current normal below, keeps]
  have nested : ∀ first second : Bool,
      (if first then (if second then Verdict.pass path else .drop) else .drop) =
        if first && second then .pass path else .drop := by
    intro first second
    cases first <;> rfl
  exact nested _ _

end Filters

end PathSearch
