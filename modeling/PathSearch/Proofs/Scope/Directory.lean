import PathSearch.Proofs.Scope.Located

/-!
Globs that end in a slash, and so ask for something below a directory. The slash stays at the residual. Starting
at the directory that the literal segments lead to keeps the meaning of such a glob, unless globstars alone come
between the literal segments and the slash: what lies in that directory itself is lost then.
-/

namespace PathSearch

open Glob

/-- A glob with a wildcard segment and a slash at its end. Its segments have no blanks at their ends, and its
alternatives have no other segments that are empty or that paths do without. -/
structure IsTidyDirectory (glob : Text) : Prop where
  wild : ∃ segment ∈ globSegments glob, isWildcardSegment segment = true
  stripped : ∀ segment ∈ (slashed glob).split '/', segment.strip = segment
  ended : (slashed glob).getLast? = some '/'
  clean : ∀ globs, alternatives (trimmed glob) = .ok globs → ∀ alternative ∈ globs,
    ∀ segment ∈ (namedSegments alternative).dropLast,
      segment ≠ [] ∧ segment ≠ ['.'] ∧ segment ≠ Path.up

/-- In no alternative globstars alone come between literal segments and the slash at the end. -/
def NamesBelow (glob : Text) : Prop :=
  LocatedGlob.literalSegments glob ≠ [] → ∀ inners, alternatives (LocatedGlob.residual glob) = .ok inners →
    ∀ inner ∈ inners, ∃ segment ∈ (Text.split '/' inner).dropLast, isStarRun segment = false

theorem not_namesBelow_iff {glob : Text} :
    ¬ NamesBelow glob ↔ LocatedGlob.literalSegments glob ≠ [] ∧
      ∃ inners, alternatives (LocatedGlob.residual glob) = .ok inners ∧
        ∃ inner ∈ inners, ∀ segment ∈ (Text.split '/' inner).dropLast, isStarRun segment = true := by
  simp [NamesBelow]

theorem split_ended (body : Text) : Text.split '/' (body ++ ['/']) = Text.split '/' body ++ [[]] :=
  Text.split_append '/' body []

/-- Two slashes in a row come around a segment that is not the last. -/
theorem nil_mem_dropLast_namedSegments (before after : Text) :
    [] ∈ (namedSegments (before ++ '/' :: '/' :: after)).dropLast := by
  obtain ⟨front, split⟩ := exists_namedSegments_append before ('/' :: after)
  have more := Text.split_ne_nil '/' after
  rw [split, Text.split, if_pos rfl, List.dropLast_append_of_ne_nil (by simp),
    List.dropLast_cons_of_ne_nil more]
  simp

namespace IsTidyDirectory

variable {glob : Text} (tidy : IsTidyDirectory glob)

include tidy

theorem trimmed_eq : trimmed glob = slashed glob := by
  rw [trimmed, strip_of_strip_slashed (strip_of_segments tidy.stripped)]

theorem exists_body : ∃ body, slashed glob = body ++ ['/'] ∧ body ≠ [] := by
  obtain ⟨body, shape⟩ := List.getLast?_eq_some_iff.mp tidy.ended
  refine ⟨body, shape, ?_⟩
  intro none
  obtain ⟨segment, member, -⟩ := tidy.wild
  simp [globSegments, shape, none, Text.split] at member

theorem wild_ne_nil : (globSegments glob).dropWhile (fun segment => !isWildcardSegment segment) ≠ [] := by
  obtain ⟨segment, member, wild⟩ := tidy.wild
  exact Text.dropWhile_ne_nil member (by simp [wild])

section Split

variable {globs : List Text} (split : alternatives (trimmed glob) = .ok globs)

include split

theorem slashes_notInfix : ¬ ['/', '/'] <:+: slashed glob := by
  intro inside
  rw [← tidy.trimmed_eq] at inside
  obtain ⟨alternative, member, before, after, rfl⟩ := exists_alternative_of_slashes split inside
  rw [List.append_assoc] at member
  exact (tidy.clean globs split _ member [] (nil_mem_dropLast_namedSegments before after)).1 rfl

theorem slashed_eq :
    slashed glob =
      leadText (isAbsoluteGlob glob) ++ Text.join '/' (globSegments glob) ++ ['/'] := by
  obtain ⟨body, shape, some⟩ := tidy.exists_body
  have apart := tidy.slashes_notInfix split
  rw [shape] at apart
  have within : ¬ ['/', '/'] <:+: body := fun inside => apart (inside.trans (List.infix_append' [] body ['/']))
  have unended : body.getLast? ≠ Option.some '/' := by
    intro last
    obtain ⟨before, rfl⟩ := List.getLast?_eq_some_iff.mp last
    exact apart ⟨before, [], by simp⟩
  have front : ['/'].isPrefixOf (body ++ ['/']) = ['/'].isPrefixOf body := by
    obtain ⟨character, rest, rfl⟩ := List.exists_cons_of_ne_nil some
    rfl
  have segments : globSegments glob = (body.split '/').filter fun segment => segment ≠ [] := by
    rw [globSegments, shape, split_ended, List.filter_append]
    simp
  rw [isAbsoluteGlob, shape, front, segments, ← eq_join_segments within unended some]

end Split

theorem residual_eq : LocatedGlob.residual glob =
    Text.join '/' ((globSegments glob).dropWhile fun segment => !isWildcardSegment segment) ++ ['/'] := by
  rw [LocatedGlob.residual, if_pos tidy.ended]

theorem residual_ne_nil : LocatedGlob.residual glob ≠ [] := by
  rw [tidy.residual_eq]
  simp

theorem trimmed_residual : trimmed (LocatedGlob.residual glob) = LocatedGlob.residual glob := by
  have inside : ∀ segment ∈ (globSegments glob).dropWhile (fun segment => !isWildcardSegment segment),
      segment ∈ (slashed glob).split '/' := fun segment member =>
    (mem_globSegments (List.dropWhile_subset _ member)).1
  have joined : LocatedGlob.residual glob = Text.join '/'
      ((globSegments glob).dropWhile (fun segment => !isWildcardSegment segment) ++ [[]]) := by
    rw [tidy.residual_eq, Text.join_append '/' tidy.wild_ne_nil (by simp)]
    rfl
  have stripped : (LocatedGlob.residual glob).strip = LocatedGlob.residual glob := by
    rw [joined]
    apply strip_join
    intro segment held
    rcases List.mem_append.mp held with held | held
    · exact tidy.stripped segment (inside segment held)
    · rw [List.mem_singleton.mp held]
      rfl
  have unslashed : '\\' ∉ LocatedGlob.residual glob := by
    rw [tidy.residual_eq, List.mem_append, not_or]
    refine ⟨Text.notMem_join (by decide) ?_, by decide⟩
    intro segment held within
    exact back_notMem_slashed (Text.mem_of_mem_split (inside segment held) within)
  rw [trimmed, stripped, slashed_eq_self unslashed]

/-- The literal segments and the residual make up the glob. -/
theorem shape {globs : List Text} (split : alternatives (trimmed glob) = .ok globs) :
    trimmed glob = frontText (isAbsoluteGlob glob) (LocatedGlob.literalSegments glob) ++
      LocatedGlob.residual glob := by
  rw [tidy.trimmed_eq, tidy.residual_eq, frontText, List.append_assoc, ← List.append_assoc _ _ ['/'],
    flatMap_append_join _ tidy.wild_ne_nil, LocatedGlob.literalSegments,
    List.takeWhile_append_dropWhile, ← List.append_assoc]
  exact tidy.slashed_eq split

end IsTidyDirectory

namespace LocatedGlob

section Ended

variable {start : Path} {glob : Text} {matcher : Matcher} (tidy : IsTidyDirectory glob)
  (compiled : Glob.compile glob = .ok matcher)

include tidy compiled

/-- The alternatives of the residual end in a slash, and in front of it they have segments that name
something. -/
theorem clean_of_ended_residual (front : isAbsoluteGlob glob = true ∨ literalSegments glob ≠ []) :
    ∃ inners, alternatives (residual glob) = .ok inners ∧ ∀ inner ∈ inners, ∃ body,
      inner = body ++ ['/'] ∧ ∀ segment ∈ literalSegments glob ++ Text.split '/' body,
        segment ≠ [] ∧ segment ≠ ['.'] ∧ segment ≠ Path.up := by
  have literal : ∀ segment ∈ literalSegments glob, IsLiteral segment :=
    fun _ => isLiteral_of_mem_literalSegments
  obtain ⟨-, -, globs, -, split, -, -⟩ := compile_eq_ok.mp compiled
  obtain ⟨_, inners, found, inner, same, -⟩ :=
    exists_alternatives_residual (tidy.shape split) literal compiled
  obtain rfl := Except.ok.inj (split.symm.trans found)
  refine ⟨inners, inner, fun part member => ?_⟩
  rw [tidy.residual_eq] at inner
  obtain ⟨body, rfl⟩ := ended_of_mem_alternatives inner member
  refine ⟨body, rfl, fun segment held => ?_⟩
  apply tidy.clean globs split _ ((same _).mpr ⟨_, member, rfl⟩)
  rw [namedSegments_frontText literal front, split_ended, ← List.append_assoc, List.dropLast_concat]
  exact held

theorem isName_of_mem_literalSegments_ended :
    ∀ segment ∈ literalSegments glob, IsName segment ∧ segment ≠ Path.up := by
  intro segment member
  obtain ⟨inners, split, clean⟩ :=
    clean_of_ended_residual tidy compiled (.inr (List.ne_nil_of_mem member))
  obtain ⟨inner, held⟩ := exists_alternative split
  obtain ⟨body, -, proper⟩ := clean inner held
  obtain ⟨some, other, ascends⟩ := proper segment (List.mem_append_left _ member)
  have literal : IsLiteral segment := isLiteral_of_mem_literalSegments member
  exact ⟨⟨some, literal.clear, other⟩, ascends⟩

/-- Starting where the literal segments lead to, with the slash behind what is left, accepts what the glob
accepts. -/
theorem accepts_ofGlob_ended_iff (below : NamesBelow glob) (current : Path) (normal : start.IsNormal) :
    ∃ located, ofGlob current start glob = .ok located ∧
      ∀ path : Path, (isAbsoluteGlob glob = true → path.anchor = .root) →
        (∀ name ∈ path.names, '\n' ∉ name ∧ '\\' ∉ name) →
          (located.Accepts path ↔
            if isAbsoluteGlob glob then matcher.accepts path = true
            else (⟨start, matcher⟩ : LocatedGlob).Accepts path) := by
  obtain ⟨-, -, globs, -, split, -, -⟩ := compile_eq_ok.mp compiled
  obtain ⟨rest, cut, behind⟩ := exists_matcher_of_cut (tidy.shape split) tidy.trimmed_residual
    tidy.residual_ne_nil compiled (by
      intro front others found part member
      obtain ⟨inners, inner, clean⟩ := clean_of_ended_residual tidy compiled front
      obtain rfl := Except.ok.inj (inner.symm.trans found)
      obtain ⟨body, rfl, proper⟩ := clean part member
      refine cutsAlike_of_ended (fun _ => isLiteral_of_mem_literalSegments)
        (fun segment held => (proper segment (List.mem_append_right _ held)).1) ?_
      intro some
      have other := below some _ inner _ member
      rwa [split_ended, List.dropLast_concat] at other)
  have named := isName_of_mem_literalSegments_ended tidy compiled
  exact ⟨_, ofGlob_eq tidy.wild cut, fun path => accepts_iff_of_cut named behind current normal⟩

end Ended

/-- A glob for what lies below the directories `t`, or any others, below `s`. -/
def directoriesBelow : Text := ['s', '/', '*', '*', '/', '\x7b', 't', ',', '*', '\x7d', '/']

theorem accepts_ofGlob_ended_iff_below :
    ∃ located, IsTidyDirectory directoriesBelow ∧ NamesBelow directoriesBelow ∧
      ofGlob .root ⟨.root, [['b']], by decide⟩ directoriesBelow = .ok located ∧
        located.Accepts ⟨.root, [['b'], ['s'], ['x'], ['y']], by decide⟩ ∧
          ¬ located.Accepts ⟨.root, [['b'], ['s'], ['x']], by decide⟩ := by
  have tidy : IsTidyDirectory directoriesBelow := by
    refine ⟨⟨['*', '*'], by decide, by decide⟩, by decide, by decide, ?_⟩
    intro globs split
    have alone : alternatives (trimmed directoriesBelow) =
        .ok [['s', '/', '*', '*', '/', 't', '/'], ['s', '/', '*', '*', '/', '*', '/']] := rfl
    obtain rfl := Except.ok.inj (alone.symm.trans split)
    decide
  have below : NamesBelow directoriesBelow := by
    intro _ inners split
    have alone : alternatives (residual directoriesBelow) =
        .ok [['*', '*', '/', 't', '/'], ['*', '*', '/', '*', '/']] := rfl
    obtain rfl := Except.ok.inj (alone.symm.trans split)
    decide
  have compiled : Glob.compile directoriesBelow = .ok (.compiled directoriesBelow
      [.covering [.one (.only 's'), .between, .one (.only '/'), .one (.only 't'), .one (.only '/')]
          .anything,
        .covering [.one (.only 's'), .between, .one (.only '/'), .one .inName, .many .inName,
          .one (.only '/')] .anything]) :=
    eq_ok_of_toOption (by decide +kernel)
  have normal : Path.IsNormal ⟨.root, [['b']], by decide⟩ := ⟨by decide, by decide⟩
  obtain ⟨located, found, accepts⟩ := accepts_ofGlob_ended_iff tidy compiled below .root normal
  refine ⟨located, tidy, below, found, ?_, ?_⟩
  · rw [accepts _ (by decide) (by decide)]
    exact ⟨⟨.here, [['s'], ['x'], ['y']], by decide⟩, rfl, by decide +kernel⟩
  · rw [accepts _ (by decide) (by decide)]
    intro found
    obtain ⟨relative, below, accepted⟩ := found
    cases below
    revert accepted
    decide +kernel

/-- A path with two leading slashes is below no directory with one. And with a literal segment in front a
globstar asks for one name below it, without for two. -/
theorem not_accepts_ofGlob_ended_iff :
    (IsTidyDirectory ['/', '*', '*', '/'] ∧
      ∃ matcher located, Glob.compile ['/', '*', '*', '/'] = .ok matcher ∧
        ofGlob .root .root ['/', '*', '*', '/'] = .ok located ∧
          matcher.accepts ⟨.doubleRoot, [['a']], by decide⟩ = true ∧
            ¬ located.Accepts ⟨.doubleRoot, [['a']], by decide⟩) ∧
    (IsTidyDirectory ['s', '/', '*', '*', '/'] ∧
      ∃ matcher located, Glob.compile ['s', '/', '*', '*', '/'] = .ok matcher ∧
        ofGlob .root ⟨.root, [['b']], by decide⟩ ['s', '/', '*', '*', '/'] = .ok located ∧
          (⟨⟨.root, [['b']], by decide⟩, matcher⟩ : LocatedGlob).Accepts
              ⟨.root, [['b'], ['s'], ['x']], by decide⟩ ∧
            ¬ located.Accepts ⟨.root, [['b'], ['s'], ['x']], by decide⟩) := by
  constructor
  · refine ⟨⟨⟨['*', '*'], by decide, by decide⟩, by decide, by decide, ?_⟩,
      .compiled ['/', '*', '*', '/'] [.nested], ⟨.root, .compiled ['*', '*', '/'] [.nested]⟩,
      eq_ok_of_toOption (by decide +kernel), eq_ok_of_toOption (by decide +kernel),
      by decide +kernel, ?_⟩
    · intro globs split
      have alone : alternatives (trimmed ['/', '*', '*', '/']) = .ok [['/', '*', '*', '/']] := rfl
      obtain rfl := Except.ok.inj (alone.symm.trans split)
      decide
    · intro found
      obtain ⟨relative, below, -⟩ := found
      cases below
  · refine ⟨⟨⟨['*', '*'], by decide, by decide⟩, by decide, by decide, ?_⟩,
      .compiled ['s', '/', '*', '*', '/'] [.covering [.one (.only 's'), .one (.only '/')] .anything],
      ⟨⟨.root, [['b'], ['s']], by decide⟩, .compiled ['*', '*', '/'] [.nested]⟩,
      eq_ok_of_toOption (by decide +kernel), eq_ok_of_toOption (by decide +kernel), ?_, ?_⟩
    · intro globs split
      have alone : alternatives (trimmed ['s', '/', '*', '*', '/']) = .ok [['s', '/', '*', '*', '/']] := rfl
      obtain rfl := Except.ok.inj (alone.symm.trans split)
      decide
    · exact ⟨⟨.here, [['s'], ['x']], by decide⟩, rfl, by decide +kernel⟩
    · intro found
      obtain ⟨relative, below, accepted⟩ := found
      cases below
      revert accepted
      decide +kernel

section Lost

variable {current start : Path} {glob : Text} {matcher rest : Matcher} {located : LocatedGlob} {name : Text}
  (tidy : IsTidyDirectory glob) (compiled : Glob.compile glob = .ok matcher)

include tidy compiled

/-- What is left behind the literal segments accepts no single name. -/
theorem not_acceptsText_residual_name (front : literalSegments glob ≠ [])
    (cut : Glob.compile (residual glob) = .ok rest) (ordinary : IsOrdinary name) :
    ¬ rest.acceptsText name = true := by
  obtain ⟨inners, inner, clean⟩ := clean_of_ended_residual tidy compiled (.inr front)
  have found : alternatives (trimmed (residual glob)) = .ok inners := by rw [tidy.trimmed_residual, inner]
  have read : subject name = name := @subject_join [name] (by simpa using ordinary)
  rw [acceptsText_iff_of_compile cut found, read]
  intro accepted
  obtain ⟨part, member, one, expanded, fits⟩ := accepted
  obtain ⟨body, rfl, proper⟩ := clean part member
  obtain ⟨chosen, spread, rfl⟩ := mem_expandStars.mp expanded
  obtain ⟨later, within, rfl⟩ := mem_spreadAll_ended.mp spread
  have line := lineSegments_alone_of_mem_spreadAll
    (fun segment held => (proper segment (List.mem_append_right _ held)).1) within
  exact not_fits_formOf?_name line ordinary.isPlainName fits

/-- Where globstars alone come behind the literal segments, the glob accepts any name there. -/
theorem acceptsText_of_not_namesBelow (lost : ¬ NamesBelow glob) {text : Text}
    (read : subject text = Text.join '/' (literalSegments glob ++ [name])) :
    matcher.acceptsText text = true := by
  have literal : ∀ segment ∈ literalSegments glob, IsLiteral segment :=
    fun _ => isLiteral_of_mem_literalSegments
  obtain ⟨-, -, globs, -, split, -, -⟩ := compile_eq_ok.mp compiled
  obtain ⟨_, inners, found, inner, same, -⟩ :=
    exists_alternatives_residual (tidy.shape split) literal compiled
  obtain rfl := Except.ok.inj (split.symm.trans found)
  obtain ⟨front, inners, again, part, member, stars⟩ := not_namesBelow_iff.mp lost
  obtain rfl := Except.ok.inj (inner.symm.trans again)
  obtain ⟨_, others, clean⟩ := clean_of_ended_residual tidy compiled (.inr front)
  obtain rfl := Except.ok.inj (inner.symm.trans others)
  obtain ⟨body, rfl, proper⟩ := clean part member
  rw [split_ended, List.dropLast_concat] at stars
  obtain ⟨later, within, globstars⟩ := exists_globstars_of_stars stars
  have line := @lineSegments_of_mem_spreadAll (isAbsoluteGlob glob) _ literal body
    (fun segment held => (proper segment (List.mem_append_right _ held)).1) later within
  have alone : mergeGlobstars (later ++ [globstar]) = [globstar] := by
    apply mergeGlobstars_of_globstars (by simp)
    intro one held
    rcases List.mem_append.mp held with held | held
    · exact globstars one held
    · exact List.mem_singleton.mp held
  rw [acceptsText_iff_of_compile compiled split, read]
  refine ⟨_, (same _).mpr ⟨_, member, rfl⟩, _, ?_, fits_formOf?_of_prefixed_globstar line literal front alone⟩
  exact (mem_expandStars_frontText literal).mpr ⟨_, mem_spreadAll_ended.mpr ⟨later, within, rfl⟩, rfl⟩

/-- Where globstars alone come behind the literal segments, starting at the directory that these lead to loses
what lies in it. -/
theorem lost_of_not_namesBelow (normal : start.IsNormal) (lost : ¬ NamesBelow glob)
    (found : ofGlob current start glob = .ok located)
    (inLine : ∀ name ∈ located.base.names, '\n' ∉ name ∧ '\\' ∉ name) (ordinary : IsOrdinary name) :
    ¬ located.Accepts (located.base.child name ordinary.1) ∧
      if isAbsoluteGlob glob then matcher.accepts (located.base.child name ordinary.1) = true
      else (⟨start, matcher⟩ : LocatedGlob).Accepts (located.base.child name ordinary.1) := by
  rw [ofGlob_of_wild tidy.wild] at found
  obtain ⟨rest, cut, rfl⟩ := map_eq_ok.mp found
  have named := isName_of_mem_literalSegments_ended tidy compiled
  let path := (baseOf current start glob).child name ordinary.1
  have held : ∀ other ∈ path.names, IsOrdinary other := by
    intro other member
    rcases List.mem_append.mp member with member | member
    · exact ⟨path.named other (List.mem_append_left _ member), inLine other member⟩
    · rw [List.mem_singleton.mp member]
      exact ordinary
  constructor
  · rw [accepts_iff held]
    intro accepted
    obtain ⟨-, later, names, accepted⟩ := accepted
    obtain rfl : [name] = later := List.append_cancel_left names
    have front := (not_namesBelow_iff.mp lost).1
    exact not_acceptsText_residual_name tidy compiled front cut ordinary accepted
  · by_cases absolute : isAbsoluteGlob glob = true
    · obtain ⟨anchor, names⟩ := @baseOf_of_absolute current start glob named absolute
      have top : path.anchor = .root := anchor
      have shape : path.names = literalSegments glob ++ [name] := congrArg (· ++ [name]) names
      rw [if_pos absolute, Matcher.accepts]
      apply acceptsText_of_not_namesBelow tidy compiled lost
      rw [subject_text (by simp [top]) fun other member => (held other member).2.2, shape]
    · rw [Bool.not_eq_true] at absolute
      obtain ⟨anchor, names⟩ := @baseOf_of_relative current start glob named normal absolute
      have shape : path.names = start.names ++ (literalSegments glob ++ [name]) := by
        rw [← List.append_assoc, ← names]
        rfl
      rw [if_neg (by simp [absolute]), accepts_iff held]
      refine ⟨anchor, _, shape, ?_⟩
      apply acceptsText_of_not_namesBelow tidy compiled lost
      exact subject_join fun other member => held other (by
        rw [shape]
        exact List.mem_append_right _ member)

end Lost

end LocatedGlob

end PathSearch
