import PathSearch.Proofs.Glob.Compiled
import PathSearch.Proofs.Glob.Expanded
import PathSearch.Proofs.Glob.Legible

/-! Globs with neither braces nor classes mean what their segments say, unless they have too many stars. -/

namespace PathSearch.Glob

/-- A relative glob in its own text, without braces and classes. Only a slash at the end may leave a
segment empty, and not behind a segment that already stands for everything below. -/
structure IsPlainGlob (glob : Text) : Prop where
  nonempty : glob ≠ []
  named : [] ∉ (glob.split '/').dropLast
  ended : ∀ before last, glob.split '/' = before ++ [last, []] → isStarRun last = false
  stripped : glob.strip = glob
  opened : '\x7b' ∉ glob
  closed : '\x7d' ∉ glob
  unclassed : '[' ∉ glob
  unslashed : '\\' ∉ glob

/-- The line of a glob is read as these segments. -/
structure Reads (glob : Text) (segments : List Text) : Prop where
  line : ∃ isDirectory, lineSegments (anchoredLine glob) = (segments, isDirectory) ∧
    (isDirectory = true → mergeGlobstars segments ≠ [globstar])
  simple : ∀ segment ∈ segments, IsSimple segment
  nonempty : segments ≠ []

theorem Reads.exists_form {glob : Text} {segments : List Text} (reads : Reads glob segments) :
    ∃ form, formOf? glob = some form := by
  obtain ⟨isDirectory, line, -⟩ := reads.line
  exact (exists_formOf?_iff_of_line line).mpr fun segment held =>
    isLegible_of_unclassed (reads.simple segment held).plain

theorem Reads.fits_iff {glob : Text} {segments : List Text} (reads : Reads glob segments)
    {names : List Text} (plain : ∀ name ∈ names, IsPlainName name) :
    Fits (formOf? glob) (Text.join '/' names) ↔ Consumes segments names := by
  obtain ⟨isDirectory, line, named⟩ := reads.line
  exact fits_formOf? line reads.simple reads.nonempty named plain

theorem isSimple_of_mem_spreadAll {segments chosen : List Text}
    (named : ∀ segment ∈ segments, segment ≠ [] ∧ '/' ∉ segment ∧ '[' ∉ segment)
    (member : chosen ∈ spreadAll segments) : ∀ one ∈ chosen, IsSimple one := by
  refine forall_mem_of_mem_spreadAll ?_ member
  intro segment held start first
  obtain ⟨nonempty, clear, plain⟩ := named segment held
  exact isSimple_of_mem_spread nonempty clear plain first

namespace IsPlainGlob

variable {glob : Text} (plain : IsPlainGlob glob)

include plain

theorem split_cases :
    ∃ segments, segments ≠ [] ∧
      (∀ segment ∈ segments, segment ≠ [] ∧ '/' ∉ segment ∧ '[' ∉ segment) ∧
      ((glob.split '/' = segments ∧ dialectSegments glob = segments) ∨
        (glob.split '/' = segments ++ [[]] ∧ dialectSegments glob = segments ++ [globstar])) := by
  have free : ∀ segment ∈ glob.split '/', '/' ∉ segment ∧ '[' ∉ segment := by
    intro segment member
    refine ⟨Text.separator_notMem_of_mem_split member, ?_⟩
    intro inside
    exact plain.unclassed (Text.mem_of_mem_split member inside)
  obtain ⟨before, last, split⟩ :=
    (List.eq_nil_or_concat (glob.split '/')).resolve_left (Text.split_ne_nil '/' glob)
  rw [List.concat_eq_append] at split
  have named := plain.named
  rw [split] at free named
  rw [List.dropLast_concat] at named
  by_cases ends : last = []
  · subst ends
    refine ⟨before, ?_, ?_, .inr ⟨split, ?_⟩⟩
    · intro none
      have whole := Text.join_split '/' glob
      rw [split, none] at whole
      exact plain.nonempty whole.symm
    · intro segment member
      refine ⟨?_, free segment (List.mem_append_left _ member)⟩
      intro none
      exact named (none ▸ member)
    · simp [dialectSegments, split]
  · refine ⟨before ++ [last], by simp, ?_, .inl ⟨split, ?_⟩⟩
    · intro segment member
      refine ⟨?_, free segment member⟩
      intro none
      rcases List.mem_append.mp member with member | member
      · exact named (none ▸ member)
      · exact ends ((List.mem_singleton.mp member).symm.trans none)
    · simp [dialectSegments, split, ends]

/-- The lines of the expanded stars are read as the expansions of the segments, one by one. -/
theorem exists_reads :
    (∀ one ∈ expandStars glob, ∃ chosen ∈ spreadAll (dialectSegments glob), Reads one chosen) ∧
      ∀ chosen ∈ spreadAll (dialectSegments glob), ∃ one ∈ expandStars glob, Reads one chosen := by
  obtain ⟨segments, nonempty, named, cases⟩ := plain.split_cases
  have simple := fun chosen (member : chosen ∈ spreadAll segments) =>
    isSimple_of_mem_spreadAll named member
  have some := fun chosen (member : chosen ∈ spreadAll segments) =>
    mt (eq_nil_iff_of_mem_spreadAll member).mp nonempty
  rcases cases with ⟨split, dialect⟩ | ⟨split, dialect⟩
  · have reads : ∀ chosen ∈ spreadAll segments, Reads (Text.join '/' chosen) chosen := by
      intro chosen member
      have kept : ∀ last, (Text.join '/' chosen).getLast? = Option.some last →
          Text.isBlank last = false := by
        intro last found
        rw [getLast?_join_of_mem_spreadAll member, ← split, Text.join_split] at found
        exact Text.isBlank_last_of_strip plain.stripped found
      have line := lineSegments_join
        (fun segment held => ⟨(simple chosen member segment held).some,
          (simple chosen member segment held).clear⟩)
        (some chosen member) kept
      exact ⟨⟨false, line, by simp⟩, simple chosen member, some chosen member⟩
    simp only [mem_expandStars, split, dialect]
    constructor
    · intro one found
      obtain ⟨chosen, member, rfl⟩ := found
      exact ⟨chosen, member, reads chosen member⟩
    · intro chosen member
      exact ⟨_, ⟨chosen, member, rfl⟩, reads chosen member⟩
  · have reads : ∀ chosen ∈ spreadAll segments,
        Reads (Text.join '/' (chosen ++ [[]])) (chosen ++ [globstar]) := by
      intro chosen member
      have line := lineSegments_join_slash (some chosen member) (simple chosen member)
      refine ⟨⟨true, line, ?_⟩, ?_, by simp⟩
      · intro _ merged
        have stars := eq_globstar_of_mergeGlobstars merged
        obtain ⟨before, last, rfl⟩ := (List.eq_nil_or_concat segments).resolve_left nonempty
        rw [List.concat_eq_append] at split member
        obtain ⟨start, later, -, others, rfl⟩ := mem_spreadAll_append.mp member
        obtain ⟨ends, _, ended, none, rfl⟩ := mem_spreadAll_cons.mp others
        have run := isStarRun_of_mem_spread ended fun one held => stars one (by simp [held])
        have free := plain.ended before last (by simp [split])
        rw [run] at free
        cases free
      · intro segment held
        rcases List.mem_append.mp held with held | held
        · exact simple chosen member segment held
        · rw [List.mem_singleton.mp held]
          exact isSimple_globstar
    simp only [mem_expandStars, split, dialect, mem_spreadAll_append, spreadAll_nil_segment,
      spreadAll_globstar, List.mem_singleton]
    constructor
    · intro one found
      obtain ⟨_, ⟨chosen, _, member, rfl, rfl⟩, rfl⟩ := found
      exact ⟨_, ⟨chosen, _, member, rfl, rfl⟩, reads chosen member⟩
    · intro _ found
      obtain ⟨chosen, _, member, rfl, rfl⟩ := found
      exact ⟨_, ⟨_, ⟨chosen, _, member, rfl, rfl⟩, rfl⟩, reads chosen member⟩

theorem slash_notMem_of_mem_dialectSegments :
    ∀ segment ∈ dialectSegments glob, '/' ∉ segment := by
  obtain ⟨segments, -, named, cases⟩ := plain.split_cases
  intro segment member
  rcases cases with ⟨-, dialect⟩ | ⟨-, dialect⟩
  · rw [dialect] at member
    exact (named segment member).2.1
  · rw [dialect] at member
    rcases List.mem_append.mp member with member | member
    · exact (named segment member).2.1
    · rw [List.mem_singleton.mp member]
      exact isSimple_globstar.clear

theorem fits_expandStars {names : List Text} (proper : ∀ name ∈ names, IsPlainName name) :
    (∃ one ∈ expandStars glob, Fits (formOf? one) (Text.join '/' names)) ↔
      Consumes (dialectSegments glob) names := by
  obtain ⟨forward, backward⟩ := plain.exists_reads
  rw [consumes_spreadAll plain.slash_notMem_of_mem_dialectSegments
    fun name member => (proper name member).clear]
  constructor
  · intro found
    obtain ⟨one, expanded, fits⟩ := found
    obtain ⟨chosen, member, reads⟩ := forward one expanded
    exact ⟨chosen, member, (reads.fits_iff proper).mp fits⟩
  · intro found
    obtain ⟨chosen, member, consumes⟩ := found
    obtain ⟨one, expanded, reads⟩ := backward chosen member
    exact ⟨one, expanded, (reads.fits_iff proper).mpr consumes⟩

theorem trimmed_eq : trimmed glob = glob := by
  rw [trimmed, plain.stripped, slashed_eq_self plain.unslashed]

theorem alternatives_eq : alternatives glob = .ok [glob] :=
  alternatives_unbraced plain.opened plain.closed

theorem compile_eq :
    compile glob = formsOf glob glob >>= fun forms => .ok (.compiled glob forms) :=
  compile_unbraced plain.trimmed_eq plain.nonempty plain.opened plain.closed

theorem compile_of_many (many : expansionLimit < starExpansions glob) :
    compile glob = .error .tooManyExpansions := by
  rw [plain.compile_eq, formsOf_of_many (checkClasses_of_unclassed plain.unclassed) many]
  rfl

theorem exists_matcher (few : starExpansions glob ≤ expansionLimit) :
    ∃ matcher, compile glob = .ok matcher := by
  have forms : ∀ one ∈ expandStars glob, ∃ form, formOf? one = some form := by
    intro one expanded
    obtain ⟨chosen, -, reads⟩ := plain.exists_reads.1 one expanded
    exact reads.exists_form
  have checked := checkClasses_of_unclassed plain.unclassed
  obtain ⟨group, formed⟩ := (@exists_formsOf_iff glob glob).mpr ⟨checked, few, forms⟩
  exact ⟨.compiled glob group, by rw [plain.compile_eq, formed]; rfl⟩

end IsPlainGlob

theorem compile_plain {glob : Text} (plain : IsPlainGlob glob) :
    (expansionLimit < starExpansions glob → compile glob = .error .tooManyExpansions) ∧
      (starExpansions glob ≤ expansionLimit → ∃ matcher, compile glob = .ok matcher ∧
        ∀ names, (∀ name ∈ names, IsOrdinary name) →
          (matcher.acceptsText (Text.join '/' names) = true ↔
            Consumes (dialectSegments glob) names)) := by
  refine ⟨plain.compile_of_many, ?_⟩
  intro few
  obtain ⟨matcher, compiled⟩ := plain.exists_matcher few
  refine ⟨matcher, compiled, ?_⟩
  intro names ordinary
  have proper := fun name member => (ordinary name member).isPlainName
  have split : alternatives (trimmed glob) = .ok [glob] := by
    rw [plain.trimmed_eq, plain.alternatives_eq]
  rw [acceptsText_iff_of_compile compiled split, subject_join ordinary,
    ← plain.fits_expandStars proper]
  simp

theorem compile_plain_crossing :
    ∃ matcher, compile ['a', '/', '*', '*', 'b', '/'] = .ok matcher ∧
      matcher.acceptsText (Text.join '/' [['a'], ['x'], ['c', 'b'], ['d']]) = true := by
  have plain : IsPlainGlob ['a', '/', '*', '*', 'b', '/'] := by
    refine ⟨by decide, by decide, ?_, by decide, by decide, by decide, by decide, by decide⟩
    intro before last split
    have ends := congrArg (fun pieces => pieces.dropLast.getLast?) split
    have shape : before ++ [last, []] = (before ++ [last]) ++ [[]] := by simp
    rw [shape, List.dropLast_concat, List.getLast?_concat] at ends
    cases ends
    rfl
  obtain ⟨matcher, compiled, accepts⟩ := (compile_plain plain).2 (by decide)
  refine ⟨matcher, compiled, ?_⟩
  apply (accepts _ (by decide)).mpr
  have letter : ∀ character : Char, character ≠ '*' ∧ character ≠ '?' → Wild [character] [character] :=
    fun character plain => .literal plain .empty
  have first : Takes ['a'] ([['*', '*', 'b'], globstar] = []) [['a']] :=
    (takes_simple rfl).mpr ⟨['a'], rfl, letter 'a' (by decide)⟩
  have second : Takes ['*', '*', 'b'] ([globstar] = []) [['x'], ['c', 'b']] :=
    (takes_iff (by decide)).mpr (.inl ⟨by decide, (letter 'b' (by decide)).crossing ['x', '/', 'c']⟩)
  exact .cons first (.cons second (consumes_last_globstar.mpr (by decide)))

section Stars

variable {count : Nat}

theorem starPairs_replicate : starPairs (List.replicate (count + 1) '*') = count := by
  induction count with
  | zero => rfl
  | succ count ih =>
      rw [List.replicate_succ, List.replicate_succ, starPairs, ← List.replicate_succ, ih]

theorem split_replicate : Text.split '/' (List.replicate count '*') = [List.replicate count '*'] :=
  Text.split_eq_singleton (by simp)

theorem starExpansions_replicate :
    starExpansions (List.replicate (count + 1) '*') = count - 1 := by
  have stars : (List.replicate (count + 1) '*').all (· = '*') = true := by
    rw [List.all_eq_true]
    intro character member
    exact decide_eq_true (List.eq_of_mem_replicate member)
  rw [starExpansions, split_replicate, List.foldr_cons, List.foldr_nil, segmentExpansions,
    if_pos stars, starPairs_replicate, Nat.add_zero]

theorem isPlainGlob_replicate : IsPlainGlob (List.replicate (count + 1) '*') where
  nonempty := by simp
  named := by simp [split_replicate]
  ended := by
    intro before last split
    have ends := congrArg List.getLast? split
    simp [split_replicate] at ends
  stripped := by
    apply Text.strip_eq_self
    · intro character first
      have star : character = '*' := by simpa [List.replicate_succ] using first.symm
      rw [star]
      rfl
    · intro character last
      have star : character = '*' := by simpa [List.getLast?_replicate] using last.symm
      rw [star]
      rfl
  opened := by simp
  closed := by simp
  unclassed := by simp
  unslashed := by simp

/-- Two or more stars in a row consume any names, as long as there are some. -/
theorem consumes_replicate {names : List Text} (nonempty : names ≠ []) :
    Consumes (dialectSegments (List.replicate (count + 2) '*')) names := by
  have segments : dialectSegments (List.replicate (count + 2) '*') =
      [List.replicate (count + 2) '*'] := by
    simp [dialectSegments, split_replicate]
  have stars : isStarRun (List.replicate (count + 2) '*') = true := by
    rw [isStarRun_iff, List.length_replicate]
    exact ⟨by omega, fun character member => List.eq_of_mem_replicate member⟩
  have takes : Takes (List.replicate (count + 2) '*') (([] : List Text) = []) names := by
    rw [Takes, if_pos stars]
    exact fun _ => nonempty
  rw [segments]
  simpa using Consumes.cons takes .nil

theorem compile_replicate (many : expansionLimit ≤ count) :
    compile (List.replicate (count + 3) '*') = .error .tooManyExpansions := by
  apply isPlainGlob_replicate.compile_of_many
  rw [starExpansions_replicate]
  omega

theorem not_compile_stars :
    IsPlainGlob (List.replicate 1500 '*') ∧
      Consumes (dialectSegments (List.replicate 1500 '*')) [['a']] ∧
        ¬ ∃ matcher, compile (List.replicate 1500 '*') = .ok matcher ∧
          matcher.acceptsText ['a'] = true := by
  refine ⟨isPlainGlob_replicate, consumes_replicate (by decide), ?_⟩
  intro found
  obtain ⟨matcher, compiled, -⟩ := found
  have refused := @compile_replicate 1497 (by decide)
  rw [refused] at compiled
  cases compiled

end Stars

end PathSearch.Glob
