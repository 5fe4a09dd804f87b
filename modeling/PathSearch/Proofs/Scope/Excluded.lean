import PathSearch.Filter.Basic
import PathSearch.Proofs.Glob.Alternatives
import PathSearch.Proofs.Glob.Empty
import PathSearch.Proofs.Path.Normal

/-!
Exclude globs. Whether one is absolute is read off its text before its braces are looked into, so one with
braces stands for its alternatives only as far as these are of its own kind.
-/

namespace PathSearch

open Glob

/-- The glob compiles and accepts the path. -/
def Matches (glob : Text) (path : Path) : Prop :=
  ∃ matcher, compile glob = .ok matcher ∧ matcher.accepts path = true

/-- Sorting and leaving out repetitions does not change which paths the globs exclude. -/
theorem isExcluded_iff {globs : List Text} {matchers : List Matcher} {path : Path}
    (compiled : compileExcludes (Text.sort globs) = .ok matchers) :
    isExcluded matchers path = true ↔ ∃ glob ∈ globs, Matches glob path := by
  unfold compileExcludes at compiled
  cases mapped : (Text.sort globs).mapM compile with
  | error error => simp [mapped, Except.map] at compiled
  | ok all =>
      simp only [mapped, Except.map, Except.ok.injEq] at compiled
      subst compiled
      have members : ∀ matcher, matcher ∈ all ↔ ∃ glob ∈ globs, compile glob = .ok matcher := by
        intro matcher
        rw [mem_iff_of_mapM mapped]
        simp [Text.sort]
      simp only [isExcluded, List.any_eq_true, List.mem_eraseDups, members]
      constructor
      · intro found
        obtain ⟨matcher, ⟨glob, member, made⟩, accepted⟩ := found
        exact ⟨glob, member, matcher, made, accepted⟩
      · intro found
        obtain ⟨glob, member, matcher, made, accepted⟩ := found
        exact ⟨matcher, ⟨glob, member, made⟩, accepted⟩

theorem exists_compileExcludes {globs : List Text}
    (all : ∀ glob ∈ globs, ∃ matcher, compile glob = .ok matcher) :
    ∃ matchers, compileExcludes (Text.sort globs) = .ok matchers := by
  have sorted : ∀ glob ∈ Text.sort globs, ∃ matcher, compile glob = .ok matcher := by
    simpa [Text.sort] using all
  obtain ⟨matchers, mapped⟩ := exists_mapM_iff.mpr sorted
  exact ⟨_, by rw [compileExcludes, mapped]; rfl⟩

/-- Whether a query with these exclude globs leaves out a path, `relative` being the path as it is seen
from its base. -/
def leavesOut (globs : List Text) (path relative : Path) : Except Glob.Error Bool :=
  (Filters.ofQuery { excludeGlobs := globs } false).map fun filters =>
    isExcluded filters.absoluteExcludes path || isExcluded filters.relativeExcludes relative

theorem exists_leavesOut {globs : List Text}
    (all : ∀ glob ∈ usableGlobs globs, ∃ matcher, compile glob = .ok matcher) (path relative : Path) :
    ∃ out, leavesOut globs path relative = .ok out ∧
      (out = true ↔
        ∃ glob ∈ usableGlobs globs, Matches glob (if isAbsoluteGlob glob then path else relative)) := by
  have absolute : ∀ glob ∈ (usableGlobs globs).filter isAbsoluteGlob, ∃ matcher, compile glob = .ok matcher :=
    fun glob member => all glob (List.mem_filter.mp member).1
  have others : ∀ glob ∈ (usableGlobs globs).filter fun glob => !isAbsoluteGlob glob,
      ∃ matcher, compile glob = .ok matcher := fun glob member => all glob (List.mem_filter.mp member).1
  obtain ⟨absolutes, first⟩ := exists_compileExcludes absolute
  obtain ⟨relatives, second⟩ := exists_compileExcludes others
  have made : Filters.ofQuery { excludeGlobs := globs } false = .ok ⟨[], absolutes, relatives, false⟩ := by
    simp only [Filters.ofQuery, ExcludeGlobs.ofGlobs, first, second]
    rfl
  refine ⟨_, by rw [leavesOut, made]; rfl, ?_⟩
  rw [Bool.or_eq_true, isExcluded_iff first, isExcluded_iff second]
  simp only [List.mem_filter, Bool.not_eq_true']
  constructor
  · intro found
    rcases found with ⟨glob, ⟨usable, rooted⟩, accepted⟩ | ⟨glob, ⟨usable, free⟩, accepted⟩
    · exact ⟨glob, usable, by simpa [rooted] using accepted⟩
    · exact ⟨glob, usable, by simpa [free] using accepted⟩
  · intro found
    obtain ⟨glob, usable, accepted⟩ := found
    cases rooted : isAbsoluteGlob glob with
    | true => exact .inl ⟨glob, ⟨usable, rooted⟩, by simpa [rooted] using accepted⟩
    | false => exact .inr ⟨glob, ⟨usable, rooted⟩, by simpa [rooted] using accepted⟩

theorem matches_strip_iff {glob : Text} {path : Path} : Matches glob.strip path ↔ Matches glob path := by
  have same : trimmed glob.strip = trimmed glob := by rw [trimmed, trimmed, Text.strip_strip]
  constructor
  · intro found
    obtain ⟨matcher, compiled, accepted⟩ := found
    exact ⟨matcher, compile_of_trimmed_eq same.symm compiled, accepted⟩
  · intro found
    obtain ⟨matcher, compiled, accepted⟩ := found
    exact ⟨matcher, compile_of_trimmed_eq same compiled, accepted⟩

theorem exists_compile_strip {glob : Text} (compiles : ∃ matcher, compile glob = .ok matcher) :
    ∃ matcher, compile glob.strip = .ok matcher := by
  obtain ⟨matcher, compiled⟩ := compiles
  exact ⟨matcher, compile_of_trimmed_eq (by rw [trimmed, trimmed, Text.strip_strip]) compiled⟩

theorem usableGlobs_of_shown {globs : List Text} (shown : ∀ glob ∈ globs, Text.strip glob ≠ []) :
    usableGlobs globs = globs.map Text.strip := by
  rw [usableGlobs, List.filter_eq_self]
  intro glob member
  obtain ⟨written, held, rfl⟩ := List.mem_map.mp member
  simpa using shown written held

theorem isAbsoluteGlob_strip {glob : Text} (alone : StandsAlone glob) :
    isAbsoluteGlob glob.strip = isAbsoluteGlob glob := by
  obtain ⟨tail, shape, -⟩ := alone.exists_tail
  obtain ⟨first, rest, left⟩ := List.exists_cons_of_ne_nil alone.shown
  rw [left] at shape ⊢
  rw [shape]
  rfl

/-- A query with one set of exclude globs leaves out what it leaves out with the other, whatever the base and
the path below it. -/
def ExcludesAlike (globs others : List Text) : Prop :=
  ∀ base path relative, base.IsAbsolute → path.relativeTo? base = some relative →
    leavesOut globs path relative = leavesOut others path relative

section Alternatives

variable {pattern : Text} {globs : List Text} (split : alternatives (trimmed pattern) = .ok globs)

include split

/-- All alternatives of an absolute glob are absolute. -/
theorem isAbsoluteGlob_of_mem_alternatives (rooted : isAbsoluteGlob pattern.strip = true) {glob : Text}
    (chosen : glob ∈ globs) : isAbsoluteGlob glob = true := by
  obtain ⟨rest, shape⟩ := List.isPrefixOf_iff_prefix.mp rooted
  rw [trimmed, ← shape] at split
  obtain ⟨inners, -, same⟩ := alternatives_append (by decide) (by decide) split
  obtain ⟨inner, -, rfl⟩ := (same glob).mp chosen
  rfl

variable (few : groupExpansions (trimmed pattern) ≤ expansionLimit)
  (alone : ∀ glob ∈ globs, StandsAlone glob)
  (compiles : ∀ glob ∈ globs, ∃ matcher, compile glob = .ok matcher)

include few alone compiles

/-- All alternatives are matched against the path that the glob as it is written asks for. -/
theorem exists_leavesOut_alternatives (path relative : Path) :
    ∃ out, leavesOut [pattern] path relative = .ok out ∧
      (out = true ↔
        ∃ glob ∈ globs, Matches glob (if isAbsoluteGlob pattern.strip then path else relative)) := by
  have means := meansAlternatives_of_standsAlone split few alone
  obtain ⟨whole, compiled⟩ := means.compiles.mpr compiles
  have nonempty : pattern.strip ≠ [] := by
    intro empty
    exact not_compile_of_blank empty ⟨whole, compiled⟩
  have one : usableGlobs [pattern] = [pattern.strip] := usableGlobs_of_shown (by simpa using nonempty)
  have together : ∀ path : Path, Matches pattern path ↔ ∃ glob ∈ globs, Matches glob path := by
    intro path
    simp only [Matches, compiled, Except.ok.injEq, exists_eq_left']
    exact means.accepts whole compiled path.text
  obtain ⟨out, made, excluded⟩ := @exists_leavesOut [pattern]
    (by simpa [one] using exists_compile_strip ⟨whole, compiled⟩) path relative
  refine ⟨out, made, ?_⟩
  rw [excluded, one, ← together]
  simp only [List.mem_singleton, exists_eq_left, matches_strip_iff]

/-- What it comes to: the one glob looks at one of the two paths, its alternatives each at its own. -/
theorem leavesOut_eq_iff {path relative : Path} :
    leavesOut [pattern] path relative = leavesOut globs path relative ↔
      ((∃ glob ∈ globs, Matches glob (if isAbsoluteGlob pattern.strip then path else relative)) ↔
        ∃ glob ∈ globs, Matches glob (if isAbsoluteGlob glob then path else relative)) := by
  have each : usableGlobs globs = globs.map Text.strip :=
    usableGlobs_of_shown fun glob chosen => (alone glob chosen).shown
  obtain ⟨out, left, leftOut⟩ := exists_leavesOut_alternatives split few alone compiles path relative
  obtain ⟨others, right, rightOut⟩ := @exists_leavesOut globs
    (by simpa [each] using fun glob chosen => exists_compile_strip (compiles glob chosen)) path relative
  rw [left, right, Except.ok.injEq, Bool.eq_iff_iff, leftOut, rightOut, each]
  simp only [List.mem_map, exists_exists_and_eq_and, matches_strip_iff]
  refine iff_congr Iff.rfl (exists_congr fun glob => and_congr_right fun chosen => ?_)
  rw [isAbsoluteGlob_strip (alone glob chosen)]

/-- An absolute glob has absolute alternatives only. -/
theorem excludesAlike_of_absolute (front : isAbsoluteGlob pattern.strip = true) :
    ExcludesAlike [pattern] globs := by
  intro base path relative _ _
  refine (leavesOut_eq_iff split few alone compiles).mpr (exists_congr fun glob =>
    and_congr_right fun chosen => ?_)
  rw [front, isAbsoluteGlob_of_mem_alternatives split front chosen]

section Relative

variable (front : isAbsoluteGlob pattern.strip = false)

include front

/-- With the base at the path itself, only an absolute matcher can see a path. -/
theorem not_matches_of_excludesAlike (alike : ExcludesAlike [pattern] globs) {glob : Text}
    (chosen : glob ∈ globs) (own : isAbsoluteGlob glob = true) {path : Path} (absolute : path.IsAbsolute) :
    ¬ Matches glob path := by
  intro accepted
  have same := (leavesOut_eq_iff split few alone compiles).mp
    (alike path path Path.here absolute Path.relativeTo?_self)
  obtain ⟨other, -, matcher, compiled, taken⟩ := same.mpr ⟨glob, chosen, by rwa [if_pos own]⟩
  have refused : matcher.accepts Path.here = false := acceptsText_of_subject_eq_nil compiled rfl
  simp only [front, Bool.false_eq_true, if_false, refused] at taken

/-- With the base at the root, every relative path is seen. -/
theorem exists_relative_of_excludesAlike (alike : ExcludesAlike [pattern] globs) {glob : Text}
    (chosen : glob ∈ globs) {path : Path} (relative : ¬ path.IsAbsolute) (accepted : Matches glob path) :
    ∃ other ∈ globs, isAbsoluteGlob other = false ∧ Matches other path := by
  have same := (leavesOut_eq_iff split few alone compiles).mp
    (alike Path.root (Path.root ++ path) path (by decide) (Path.relativeTo?_append relative))
  obtain ⟨other, held, taken⟩ := same.mp ⟨glob, chosen, by simpa [front] using accepted⟩
  cases own : isAbsoluteGlob other with
  | false => exact ⟨other, held, own, by simpa [own] using taken⟩
  | true =>
      rw [if_pos own] at taken
      have absolute : (Path.root ++ path).IsAbsolute := Path.isAbsolute_append (by decide) path
      exact absurd taken (not_matches_of_excludesAlike split few alone compiles front alike held own absolute)

/-- A relative glob stands for its alternatives when the absolute ones come to nothing. -/
theorem excludesAlike_iff_of_relative :
    ExcludesAlike [pattern] globs ↔
      ∀ glob ∈ globs, isAbsoluteGlob glob = true → ∀ path, Matches glob path →
        ¬ path.IsAbsolute ∧ ∃ other ∈ globs, isAbsoluteGlob other = false ∧ Matches other path := by
  constructor
  · intro alike glob chosen own path accepted
    have relative : ¬ path.IsAbsolute := fun absolute =>
      not_matches_of_excludesAlike split few alone compiles front alike chosen own absolute accepted
    refine ⟨relative, ?_⟩
    exact exists_relative_of_excludesAlike split few alone compiles front alike chosen relative accepted
  · intro none base path relative absolute below
    have rooted : path.IsAbsolute := by
      obtain ⟨same, -⟩ := Path.relativeTo?_eq_some below
      rwa [Path.IsAbsolute, same]
    rw [leavesOut_eq_iff split few alone compiles]
    simp only [front, Bool.false_eq_true, if_false]
    constructor
    · intro found
      obtain ⟨glob, chosen, accepted⟩ := found
      by_cases own : isAbsoluteGlob glob = true
      · obtain ⟨-, other, held, free, taken⟩ := none glob chosen own relative accepted
        exact ⟨other, held, by simpa [free] using taken⟩
      · exact ⟨glob, chosen, by rwa [if_neg own]⟩
    · intro found
      obtain ⟨glob, chosen, accepted⟩ := found
      by_cases own : isAbsoluteGlob glob = true
      · rw [if_pos own] at accepted
        exact absurd rooted (none glob chosen own path accepted).1
      · exact ⟨glob, chosen, by rwa [if_neg own] at accepted⟩

end Relative

/-- An exclude glob with braces is absolute or relative as a whole, by its text as it is written. It stands
for its alternatives exactly when that makes no difference to any path. -/
theorem excludesAlike_iff :
    (∀ path relative, ∃ out, leavesOut [pattern] path relative = .ok out ∧
      (out = true ↔
        ∃ glob ∈ globs, Matches glob (if isAbsoluteGlob pattern.strip then path else relative))) ∧
      (ExcludesAlike [pattern] globs ↔
        isAbsoluteGlob pattern.strip = true ∨
          ∀ glob ∈ globs, isAbsoluteGlob glob = true → ∀ path, Matches glob path →
            ¬ path.IsAbsolute ∧ ∃ other ∈ globs, isAbsoluteGlob other = false ∧ Matches other path) := by
  refine ⟨exists_leavesOut_alternatives split few alone compiles, ?_⟩
  cases front : isAbsoluteGlob pattern.strip with
  | true => simp [excludesAlike_of_absolute split few alone compiles front]
  | false => simpa using excludesAlike_iff_of_relative split few alone compiles front

end Alternatives

theorem excludesAlike_rooted :
    ExcludesAlike [.ofString "/v\x7ba,b\x7d/**"] [.ofString "/va/**", .ofString "/vb/**"] := by
  have split : alternatives (trimmed (.ofString "/v\x7ba,b\x7d/**")) =
      .ok [.ofString "/va/**", .ofString "/vb/**"] := eq_ok_of_toOption (by decide +kernel)
  refine (excludesAlike_iff split (by decide +kernel) ?_ ?_).2.mpr (.inl (by decide))
  · rw [List.forall_mem_cons, List.forall_mem_singleton]
    exact ⟨⟨by decide, by decide, .inl (by decide)⟩, ⟨by decide, by decide, .inl (by decide)⟩⟩
  · rw [List.forall_mem_cons, List.forall_mem_singleton]
    exact ⟨exists_ok_of_isSome (by decide +kernel), exists_ok_of_isSome (by decide +kernel)⟩

theorem not_excludesAlike_of_kept {globs others : List Text} {base path relative : Path}
    (absolute : base.IsAbsolute) (below : path.relativeTo? base = some relative)
    (kept : (leavesOut globs path relative).toOption = some false)
    (lost : (leavesOut others path relative).toOption = some true) : ¬ ExcludesAlike globs others := by
  intro alike
  rw [alike base path relative absolute below, lost] at kept
  cases kept

/-- A group of an absolute and a relative glob is taken to be relative, and an alternative that starts with a
blank keeps the blank. -/
theorem not_excludesAlike :
    ¬ ExcludesAlike [.ofString "\x7b/var/cache,build\x7d/**"]
        [.ofString "/var/cache/**", .ofString "build/**"] ∧
      ¬ ExcludesAlike [.ofString "\x7b a\x7d"] [.ofString " a"] := by
  constructor
  · exact @not_excludesAlike_of_kept _ _ (.ofString "/var") (.ofString "/var/cache/x") (.ofString "cache/x")
      (by decide) (by decide) (by decide +kernel) (by decide +kernel)
  · exact @not_excludesAlike_of_kept _ _ (.ofString "/") (.ofString "/a") (.ofString "a")
      (by decide) (by decide) (by decide +kernel) (by decide +kernel)

end PathSearch
