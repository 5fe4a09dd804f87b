import PathSearch.Proofs.Glob.Outcome
import PathSearch.Search

/-! What making a query ready can fail with: it compiles one glob after the other, and stops at the first
one that cannot be compiled. -/

namespace PathSearch

/-- The texts that are compiled for a query: the include globs without their literal directories, and the
exclude globs as they are. -/
def Query.compiledGlobs (query : Query) : List Text :=
  ((usableGlobs query.includeGlobs).filter fun glob => (globSegments glob).any isWildcardSegment).map
      LocatedGlob.residual ++
    usableGlobs query.excludeGlobs

namespace Search

section Failures

variable {query : Query} {error : Glob.Error}

theorem exists_of_ofGlob_error {current start : Path} {glob : Text}
    (failed : LocatedGlob.ofGlob current start glob = .error error) :
    (globSegments glob).any isWildcardSegment = true ∧
      Glob.compile (LocatedGlob.residual glob) = .error error := by
  unfold LocatedGlob.ofGlob at failed
  by_cases literal : (globSegments glob).all (fun segment => !isWildcardSegment segment) = true
  · simp [literal] at failed
  · simp only [literal] at failed
    refine ⟨?_, map_eq_error.mp failed⟩
    simpa [List.any_eq_not_all_not] using literal

theorem exists_of_ofGlobs_error {current start : Path}
    (failed : BaseGroup.ofGlobs current start query.includeGlobs = .error error) :
    ∃ text ∈ query.compiledGlobs, Glob.compile text = .error error := by
  rcases bind_eq_error.mp failed with stopped | ⟨located, -, returned⟩
  · obtain ⟨before, glob, after, all, -, refused⟩ := exists_of_mapM_eq_error stopped
    have usable : glob ∈ usableGlobs query.includeGlobs := by simp [all]
    obtain ⟨wild, compiled⟩ := exists_of_ofGlob_error refused
    exact ⟨LocatedGlob.residual glob, List.mem_append_left _
      (List.mem_map.mpr ⟨glob, List.mem_filter.mpr ⟨usable, wild⟩, rfl⟩), compiled⟩
  · cases returned

theorem exists_of_compileExcludes_error {globs : List Text}
    (failed : compileExcludes (Text.sort globs) = .error error) :
    ∃ text ∈ globs, Glob.compile text = .error error := by
  obtain ⟨before, glob, after, all, -, refused⟩ := exists_of_mapM_eq_error (map_eq_error.mp failed)
  have sorted : glob ∈ Text.sort globs := by simp [all]
  exact ⟨glob, by simpa [Text.sort] using sorted, refused⟩

theorem exists_of_filters_error {tracing : Bool} (failed : Filters.ofQuery query tracing = .error error) :
    ∃ text ∈ query.compiledGlobs, Glob.compile text = .error error := by
  rcases bind_eq_error.mp failed with stopped | ⟨absolute, -, later⟩
  · obtain ⟨text, member, refused⟩ := exists_of_compileExcludes_error stopped
    exact ⟨text, List.mem_append_right _ ((List.mem_filter.mp member).1), refused⟩
  · rcases bind_eq_error.mp later with stopped | ⟨relative, -, returned⟩
    · obtain ⟨text, member, refused⟩ := exists_of_compileExcludes_error stopped
      exact ⟨text, List.mem_append_right _ ((List.mem_filter.mp member).1), refused⟩
    · cases returned

theorem exists_of_ofQuery_error {system : FileSystem} {tracing : Bool}
    (failed : ofQuery system query tracing = .error error) :
    ∃ text ∈ query.compiledGlobs, Glob.compile text = .error error := by
  rcases bind_eq_error.mp failed with stopped | ⟨groups, -, later⟩
  · exact exists_of_ofGlobs_error stopped
  · rcases bind_eq_error.mp later with stopped | ⟨filters, -, returned⟩
    · exact exists_of_filters_error stopped
    · cases returned

end Failures

/-- Compiling a pattern gives a matcher or calls that pattern malformed, just if the pattern does not escape
the check of its classes and the limit of expansions; a pattern with tame classes and few braces and stars
does not. So a query none of whose globs escapes is made ready, or one of them is called malformed. -/
theorem ofQuery_names_malformed (pattern : Text) (system : FileSystem) (query : Query) (tracing : Bool) :
    ((∃ matcher, Glob.compile pattern = .ok matcher) ∨
        (∃ reason, Glob.compile pattern = .error (.malformed pattern reason)) ↔
      ¬ Glob.Escapes pattern) ∧
    (Glob.Escapes pattern → Glob.compile pattern = .error .reversedMember ∨
      Glob.compile pattern = .error .tooManyExpansions) ∧
    (Glob.IsTamePattern pattern → ¬ Glob.Escapes pattern) ∧
    ((∀ text ∈ query.compiledGlobs, ¬ Glob.Escapes text) →
      (∃ search, ofQuery system query tracing = .ok search) ∨
        ∃ text ∈ query.compiledGlobs, ∃ reason,
          ofQuery system query tracing = .error (.malformed text reason)) := by
  refine ⟨⟨?_, Glob.compile_of_not_escapes⟩, Glob.compile_of_escapes, Glob.IsTamePattern.not_escapes, ?_⟩
  · intro fine escapes
    rcases Glob.compile_of_escapes escapes with raw | raw
    · simp [raw] at fine
    · simp [raw] at fine
  · intro contained
    cases made : ofQuery system query tracing with
    | ok search => exact .inl ⟨search, rfl⟩
    | error error =>
        obtain ⟨text, member, refused⟩ := exists_of_ofQuery_error made
        rcases Glob.compile_of_not_escapes (contained text member) with ⟨matcher, fine⟩ | ⟨reason, named⟩
        · exact absurd (fine.symm.trans refused) (by simp)
        · cases named.symm.trans refused
          exact .inr ⟨text, member, reason, rfl⟩

/-- A tame class in braces, a class whose second negation mark starts a range, and a query with a glob that
is called malformed. -/
theorem ofQuery_names_malformed_reversed :
    let tame : Text := ['\x7b', '[', '!', 'a', '-', 'c', ']', '*', ',', 'b', '\x7d']
    let marked : Text := ['[', '!', '^', '-', '!', ']']
    let reversed : Text := ['[', 'z', '-', 'a', ']']
    let system : FileSystem := ⟨Tree.empty, [], .root⟩
    let query : Query := { includeGlobs := [['d', '/'] ++ reversed] }
    (Glob.IsTamePattern tame ∧ ¬ Glob.Escapes tame) ∧
      (Glob.Escapes marked ∧ (Glob.compile marked = .error .reversedMember ∨
        Glob.compile marked = .error .tooManyExpansions)) ∧
      (query.compiledGlobs = [reversed] ∧ ¬ Glob.Escapes reversed) ∧
      ((∃ search, ofQuery system query false = .ok search) ∨
        ∃ text ∈ query.compiledGlobs, ∃ reason,
          ofQuery system query false = .error (.malformed text reason)) := by
  intro tame marked reversed system query
  have isTame : Glob.IsTamePattern tame := by
    have alternatives : Glob.alternatives (Glob.trimmed tame) =
        .ok [['[', '!', 'a', '-', 'c', ']', '*'], ['b']] := rfl
    have classes : Glob.classTexts ['[', '!', 'a', '-', 'c', ']', '*'] = [['!', 'a', '-', 'c']] := by
      decide +kernel
    have none : Glob.classTexts ['b'] = [] := by decide +kernel
    refine ⟨by decide, ?_, ?_⟩
    · intro globs split
      obtain rfl := Except.ok.inj (alternatives.symm.trans split)
      decide
    · intro globs split
      obtain rfl := Except.ok.inj (alternatives.symm.trans split)
      simp only [List.forall_mem_cons, classes, none]
      exact ⟨⟨⟨by decide, by decide, by decide⟩, by simp⟩, by simp, by simp⟩
  have raw : Glob.compile marked = .error .reversedMember := eq_error_of_match (by decide +kernel)
  have escapes : Glob.Escapes marked := by
    refine Classical.byContradiction fun contained => ?_
    rcases (ofQuery_names_malformed marked system query false).1.mpr contained with ⟨_, fine⟩ | ⟨_, named⟩
    · cases raw.symm.trans fine
    · cases raw.symm.trans named
  have named : Glob.compile reversed = .error (.malformed reversed (.reversedRange 'z' 'a')) :=
    eq_error_of_match (by decide +kernel)
  have contained : ¬ Glob.Escapes reversed :=
    (ofQuery_names_malformed reversed system query false).1.mp (.inr ⟨_, named⟩)
  have globs : query.compiledGlobs = [reversed] := by decide +kernel
  refine ⟨⟨isTame, (ofQuery_names_malformed tame system query false).2.2.1 isTame⟩,
    ⟨escapes, (ofQuery_names_malformed marked system query false).2.1 escapes⟩, ⟨globs, contained⟩,
    (ofQuery_names_malformed reversed system query false).2.2.2 ?_⟩
  rw [globs, List.forall_mem_singleton]
  exact contained

/-- Behind the negation mark the check takes a second one for another, and misses the range that it starts. -/
theorem not_ofQuery_names_malformed :
    let marked : Text := ['[', '!', '^', '-', '!', ']']
    let system : FileSystem := ⟨Tree.empty, [], .root⟩
    let query : Query := { includeGlobs := [marked] }
    (¬ ∀ pattern, (∃ matcher, Glob.compile pattern = .ok matcher) ∨
      ∃ reason, Glob.compile pattern = .error (.malformed pattern reason)) ∧
    ofQuery system query false = .error .reversedMember := by
  intro marked system query
  have raw : Glob.compile marked = .error .reversedMember := eq_error_of_match (by decide +kernel)
  constructor
  · intro all
    rcases all marked with ⟨_, fine⟩ | ⟨_, named⟩
    · cases raw.symm.trans fine
    · cases raw.symm.trans named
  · have groups : BaseGroup.ofGlobs system.current (query.normalizedBaseDir system.current)
        query.includeGlobs = .error .reversedMember := eq_error_of_match (by decide +kernel)
    simp only [ofQuery, groups]
    rfl

end Search

end PathSearch
