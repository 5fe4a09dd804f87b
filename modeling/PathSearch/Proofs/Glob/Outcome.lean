import PathSearch.Proofs.Glob.Compiled
import PathSearch.Proofs.Glob.Expanded
import PathSearch.Proofs.Glob.Legible

/-! How compiling ends. The check of the classes reads a whole alternative, and the classes are compiled
segment by segment after the stars have been expanded; where the two readings agree, compiling returns a
matcher or refuses the pattern by name. -/

namespace PathSearch.Glob

/-- A class that both readings take for the same: neither a slash nor two stars in a row cut it in
pieces, and the check leaves out no more negation marks than the one that negates. -/
structure IsTame (inner : Text) : Prop where
  single : (inner.takeWhile isNegation).length ≤ 1
  whole : '/' ∉ inner
  starless : crosses inner = false

section Cut

variable {segment text : Text} {classes : List Text}

/-- Two stars in no class are expanded without touching the classes. -/
theorem Classed.exists_of_mem_spread (classed : Classed segment classes)
    (starless : ∀ inner ∈ classes, crosses inner = false) {start : List Text}
    (member : start ∈ spread segment) :
    ∀ one ∈ start, ∃ others, Classed one others ∧ others ⊆ classes := by
  fun_induction spread segment generalizing classes start with
  | case1 =>
      intro one held
      rw [List.mem_singleton.mp member, List.mem_singleton] at held
      exact ⟨classes, held ▸ classed, List.Subset.refl _⟩
  | case2 segment other found =>
      intro one held
      rw [List.mem_singleton.mp member, List.mem_singleton] at held
      exact ⟨classes, held ▸ classed, List.Subset.refl _⟩
  | case3 head tail more found shorter other =>
      have apart : ∀ inner ∈ classes, ¬ globstar <:+: inner := by
        intro inner held inside
        have crossing := occursIn_iff_infix.mpr inside
        have single := starless inner held
        rw [crosses, crossing] at single
        cases single
      obtain ⟨before, after, first, last, rfl⟩ :=
        @Classed.cut head tail globstar _ (by decide) (by decide) (by decide) apart classed
      have starred : Classed ('*' :: tail) after := .plain (by decide) last
      rcases List.mem_append.mp member with member | member
      · exact shorter (first.append starred) starless member
      · obtain ⟨deeper, inner, rfl⟩ := List.mem_map.mp member
        intro one held
        rcases List.mem_cons.mp held with rfl | held
        · have ended : Classed (head ++ ['*']) (before ++ []) := first.append (.plain (by decide) .done)
          rw [List.append_nil] at ended
          exact ⟨before, ended, List.subset_append_left ..⟩
        · rcases List.mem_cons.mp held with rfl | held
          · exact ⟨[], .of_unclassed (by decide), List.nil_subset _⟩
          · obtain ⟨others, classed, among⟩ := other starred
              (fun inner held => starless inner (List.mem_append_right _ held)) inner one held
            exact ⟨others, classed, List.subset_append_of_subset_right _ among⟩

theorem Classed.exists_of_mem_pieces {pieces : List Text} (classed : Classed (Text.join '/' pieces) classes)
    (whole : ∀ inner ∈ classes, '/' ∉ inner) :
    ∀ piece ∈ pieces, ∃ others, Classed piece others ∧ others ⊆ classes := by
  induction pieces generalizing classes with
  | nil => simp
  | cons piece rest ih =>
      by_cases alone : rest = []
      · subst alone
        rw [List.forall_mem_singleton]
        exact ⟨classes, classed, List.Subset.refl _⟩
      · rw [Text.join_cons '/' piece alone] at classed
        have apart : ∀ inner ∈ classes, ¬ ['/'] <:+: inner := fun inner held inside =>
          whole inner held (inside.subset (List.mem_cons_self ..))
        obtain ⟨before, after, first, last, rfl⟩ :=
          @Classed.cut piece (Text.join '/' rest) ['/'] _ (by decide) (by decide) (by decide) apart classed
        have later := ih last fun inner held => whole inner (List.mem_append_right _ held)
        intro one held
        rcases List.mem_cons.mp held with rfl | held
        · exact ⟨before, first, List.subset_append_left ..⟩
        · obtain ⟨others, classed, among⟩ := later one held
          exact ⟨others, classed, List.subset_append_of_subset_right _ among⟩

variable {alternative one : Text}

/-- Expanding the stars of an alternative with tame classes leaves its classes as they were checked. -/
theorem isLegible_of_tame (checked : checkClasses alternative = .ok ())
    (tame : ∀ inner ∈ classTexts alternative, IsTame inner) (expanded : one ∈ expandStars alternative) :
    ∀ segment ∈ one.split '/', IsLegible segment := by
  obtain ⟨classed, forward⟩ := classed_of_checkClasses checked
  have joined : Classed (Text.join '/' (alternative.split '/')) (classTexts alternative) := by
    rwa [Text.join_split]
  have pieces := joined.exists_of_mem_pieces fun inner held => (tame inner held).whole
  obtain ⟨chosen, member, rfl⟩ := mem_expandStars.mp expanded
  have kept : ∀ segment ∈ chosen,
      '/' ∉ segment ∧ ∃ others, Classed segment others ∧ others ⊆ classTexts alternative := by
    refine forall_mem_of_mem_spreadAll ?_ member
    intro segment held start first part inside
    obtain ⟨others, closed, among⟩ := pieces segment held
    obtain ⟨-, characters, -⟩ := parts_of_mem_spread first inside
    refine ⟨fun slash => Text.separator_notMem_of_mem_split held (characters _ slash), ?_⟩
    obtain ⟨fewer, parted, within⟩ :=
      closed.exists_of_mem_spread (fun inner held => (tame inner (among held)).starless) first part inside
    exact ⟨fewer, parted, List.Subset.trans within among⟩
  have nonempty := mt (eq_nil_iff_of_mem_spreadAll member).mp (Text.split_ne_nil '/' alternative)
  rw [Text.split_join nonempty fun segment held => (kept segment held).1]
  intro segment held inner read
  obtain ⟨-, others, closed, among⟩ := kept segment held
  rw [closed.classTexts_eq] at read
  exact exists_read? (tame inner (among read)).single (forward inner (among read))

end Cut

/-- An alternative that passes the check of its classes and still cannot be compiled: it has too many
stars, or a class that is read in another way once its stars have been expanded. -/
def Breaks (alternative : Text) : Prop :=
  checkClasses alternative = .ok () ∧
    (expansionLimit < starExpansions alternative ∨
      ∃ one ∈ expandStars alternative, ∃ segment ∈ one.split '/', ¬ IsLegible segment)

/-- A pattern for which compiling fails without saying that the pattern is malformed: it has too many
brace groups, or the first alternative with anything wrong passes the check of its classes. -/
def Escapes (pattern : Text) : Prop :=
  trimmed pattern ≠ [] ∧
    (expansionLimit < groupExpansions (trimmed pattern) ∨
      ∃ before alternative after,
        alternatives (trimmed pattern) = .ok (before ++ alternative :: after) ∧
          (∀ earlier ∈ before, checkClasses earlier = .ok ()) ∧ Breaks alternative)

/-- Few braces, few stars and tame classes only. -/
structure IsTamePattern (pattern : Text) : Prop where
  fewGroups : groupExpansions (trimmed pattern) ≤ expansionLimit
  fewStars : ∀ globs, alternatives (trimmed pattern) = .ok globs →
    ∀ alternative ∈ globs, starExpansions alternative ≤ expansionLimit
  classes : ∀ globs, alternatives (trimmed pattern) = .ok globs →
    ∀ alternative ∈ globs, ∀ inner ∈ classTexts alternative, IsTame inner

theorem IsTamePattern.not_escapes {pattern : Text} (tame : IsTamePattern pattern) : ¬ Escapes pattern := by
  intro escapes
  obtain ⟨-, many | ⟨before, alternative, after, split, -, checked, broken⟩⟩ := escapes
  · exact Nat.not_lt_of_le tame.fewGroups many
  · have held : alternative ∈ before ++ alternative :: after := by simp
    rcases broken with many | ⟨one, expanded, segment, inside, illegible⟩
    · exact Nat.not_lt_of_le (tame.fewStars _ split alternative held) many
    · exact illegible
        (isLegible_of_tame checked (tame.classes _ split alternative held) expanded segment inside)

section Alternatives

variable {pattern alternative : Text} {error : Error}

theorem exists_formsOf_iff_not_breaks (checked : checkClasses alternative = .ok ()) :
    (∃ forms, formsOf pattern alternative = .ok forms) ↔ ¬ Breaks alternative := by
  rw [exists_formsOf_iff]
  simp only [Breaks, checked, true_and, exists_formOf?_iff, not_or, not_exists, not_and, not_not,
    Nat.not_lt]

theorem formsOf_of_checkClasses_error {reason : Reason} (refused : checkClasses alternative = .error reason) :
    formsOf pattern alternative = .error (.malformed pattern reason) := by
  unfold formsOf
  rw [refused]
  rfl

/-- Behind the check of its classes an alternative is not called malformed. -/
theorem eq_of_formsOf_error (checked : checkClasses alternative = .ok ())
    (failed : formsOf pattern alternative = .error error) :
    error = .reversedMember ∨ error = .tooManyExpansions := by
  by_cases many : expansionLimit < starExpansions alternative
  · rw [formsOf_of_many checked many] at failed
    cases failed
    exact .inr rfl
  · unfold formsOf at failed
    rw [checked, if_neg many] at failed
    obtain ⟨before, one, after, -, -, stopped⟩ := exists_of_mapM_eq_error failed
    cases made : formOf? one with
    | none =>
        rw [made] at stopped
        cases stopped
        exact .inl rfl
    | some form =>
        rw [made] at stopped
        cases stopped

/-- The alternatives in front of one that breaks do not keep compiling from failing in its way. -/
theorem exists_error_of_breaks {before after : List Text}
    (checked : ∀ earlier ∈ before, checkClasses earlier = .ok ()) (breaks : Breaks alternative) :
    ∃ error, (before ++ alternative :: after).mapM (formsOf pattern) = .error error ∧
      (error = .reversedMember ∨ error = .tooManyExpansions) := by
  induction before with
  | nil =>
      cases made : formsOf pattern alternative with
      | ok forms => exact absurd breaks ((exists_formsOf_iff_not_breaks breaks.1).mp ⟨forms, made⟩)
      | error error => exact ⟨error, mapM_cons_eq_error.mpr (.inl made), eq_of_formsOf_error breaks.1 made⟩
  | cons earlier before ih =>
      have first := checked earlier (List.mem_cons_self ..)
      obtain ⟨later, stopped, raw⟩ := ih fun other held => checked other (List.mem_cons_of_mem _ held)
      cases made : formsOf pattern earlier with
      | ok forms => exact ⟨later, mapM_cons_eq_error.mpr (.inr ⟨forms, made, stopped⟩), raw⟩
      | error error => exact ⟨error, mapM_cons_eq_error.mpr (.inl made), eq_of_formsOf_error first made⟩

end Alternatives

section Outcomes

variable {pattern : Text}

theorem compile_of_escapes (escapes : Escapes pattern) :
    compile pattern = .error .reversedMember ∨ compile pattern = .error .tooManyExpansions := by
  obtain ⟨nonempty, faulty⟩ := escapes
  rw [compile_eq, if_neg nonempty]
  by_cases many : expansionLimit < groupExpansions (trimmed pattern)
  · exact .inr (if_pos many)
  · obtain ⟨before, alternative, after, split, checked, breaks⟩ := faulty.resolve_left many
    obtain ⟨error, stopped, raw⟩ := @exists_error_of_breaks pattern alternative before after checked breaks
    rw [if_neg many, split]
    simp only [stopped]
    rcases raw with rfl | rfl
    · exact .inl rfl
    · exact .inr rfl

theorem compile_of_not_escapes (contained : ¬ Escapes pattern) :
    (∃ matcher, compile pattern = .ok matcher) ∨
      ∃ reason, compile pattern = .error (.malformed pattern reason) := by
  rw [compile_eq]
  by_cases empty : trimmed pattern = []
  · exact .inr ⟨.empty, if_pos empty⟩
  · simp only [Escapes, not_and, not_or, not_exists] at contained
    obtain ⟨few, unbroken⟩ := contained empty
    rw [if_neg empty, if_neg few]
    cases split : alternatives (trimmed pattern) with
    | error reason => exact .inr ⟨reason, rfl⟩
    | ok globs =>
        cases mapped : globs.mapM (formsOf pattern) with
        | ok forms => exact .inl ⟨_, by simp only [mapped]; rfl⟩
        | error error =>
            obtain ⟨before, alternative, after, rfl, passed, stopped⟩ := exists_of_mapM_eq_error mapped
            have checked : ∀ earlier ∈ before, checkClasses earlier = .ok () := fun earlier held =>
              (exists_formsOf_iff.mp (passed earlier held)).1
            cases refused : checkClasses alternative with
            | error reason =>
                rw [formsOf_of_checkClasses_error refused] at stopped
                cases stopped
                exact .inr ⟨reason, by simp only [mapped]; rfl⟩
            | ok =>
                have fine := unbroken before alternative after split checked
                obtain ⟨forms, made⟩ := (exists_formsOf_iff_not_breaks refused).mpr fine
                exact absurd (made.symm.trans stopped) (by simp)

end Outcomes

end PathSearch.Glob
