import PathSearch.Proofs.Results
import PathSearch.Scope.Rule

/-! Grouping loses nothing: below any base, the groups of some globs accept what one of the globs with
that base accepts. -/

namespace PathSearch

namespace IncludeRule

end IncludeRule

theorem LocatedGlob.base_ofGlob {current start : Path} {glob : Text} {located : LocatedGlob}
    (made : ofGlob current start glob = .ok located) : located.base = baseOf current start glob := by
  simp only [ofGlob] at made
  split at made
  · cases made
    rfl
  · obtain ⟨rest, -, rfl⟩ := map_eq_ok.mp made
    rfl

namespace BaseGroup

variable {current start base path : Path} {globs : List Text} {groups : List BaseGroup}

/-- The groups of globs can be made just if each glob can be split into its base and its matcher. -/
theorem exists_ofGlobs_iff :
    (∃ groups, ofGlobs current start globs = .ok groups) ↔
      ∀ glob ∈ usableGlobs globs, ∃ located, LocatedGlob.ofGlob current start glob = .ok located := by
  rw [← exists_mapM_iff]
  constructor
  · rintro ⟨groups, made⟩
    obtain ⟨located, mapped, -⟩ := bind_eq_ok.mp made
    exact ⟨located, mapped⟩
  · rintro ⟨located, mapped⟩
    exact ⟨_, bind_eq_ok.mpr ⟨located, mapped, rfl⟩⟩

variable (made : ofGlobs current start globs = .ok groups) (usable : usableGlobs globs ≠ [])

include made usable

theorem exists_ofLocated :
    ∃ located, (usableGlobs globs).mapM (LocatedGlob.ofGlob current start) = .ok located ∧
      groups = ofLocated located := by
  obtain ⟨located, mapped, last⟩ := bind_eq_ok.mp made
  simp only [pure, Except.pure, Except.ok.injEq] at last
  obtain ⟨glob, member⟩ := List.exists_mem_of_ne_nil _ usable
  obtain ⟨single, split⟩ := exists_mapM_iff.mp ⟨located, mapped⟩ glob member
  have some : located ≠ [] := List.ne_nil_of_mem ((mem_iff_of_mapM mapped).mpr ⟨glob, member, split⟩)
  exact ⟨located, mapped, by rw [← last, if_neg some]⟩

end BaseGroup

end PathSearch
