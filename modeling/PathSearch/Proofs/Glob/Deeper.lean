import PathSearch.Proofs.Glob.Leading
import PathSearch.Proofs.Glob.Rooted

/-!
What a glob matches, it matches at any depth with a globstar in front. Two things are in the way of that:
line breaks, which a globstar does not cross, and a directory that is nothing but a backslash, which reads
as one slash too many.
-/

namespace PathSearch.Glob

/-- A relative glob without braces and without blanks around it, in which only a slash at the end leaves a
segment empty. -/
structure IsRelativeGlob (glob : Text) : Prop where
  opened : '\x7b' ∉ glob
  closed : '\x7d' ∉ glob
  stripped : glob.strip = glob
  named : [] ∉ ((slashed glob).split '/').dropLast

namespace IsRelativeGlob

variable {glob : Text} (relative : IsRelativeGlob glob) {matcher deep : Matcher}
  (compiled : compile glob = .ok matcher)

include relative

theorem trimmed_eq : trimmed glob = slashed glob := by rw [trimmed, relative.stripped]

theorem isUnbraced : IsUnbraced (trimmed glob) where
  opened inside := relative.opened (mem_of_mem_slashed (by decide) (relative.trimmed_eq ▸ inside))
  closed inside := relative.closed (mem_of_mem_slashed (by decide) (relative.trimmed_eq ▸ inside))
  unslashed := back_notMem_slashed

theorem isUnbraced_atAnyDepth : IsUnbraced (atAnyDepth (trimmed glob)) where
  opened := by simp [atAnyDepth, globstar, relative.isUnbraced.opened]
  closed := by simp [atAnyDepth, globstar, relative.isUnbraced.closed]
  unslashed := by simp [atAnyDepth, globstar, relative.isUnbraced.unslashed]

theorem alternatives_eq : alternatives (trimmed glob) = .ok [trimmed glob] :=
  alternatives_unbraced relative.isUnbraced.opened relative.isUnbraced.closed

theorem trimmed_atAnyDepth (nonempty : glob ≠ []) :
    trimmed (atAnyDepth glob) = atAnyDepth (trimmed glob) := by
  have stripped : (atAnyDepth glob).strip = atAnyDepth glob := by
    apply Text.strip_eq_self
    · intro first found
      cases found
      decide
    · intro last found
      obtain ⟨first, rest, rfl⟩ := List.exists_cons_of_ne_nil nonempty
      refine Text.isBlank_last_of_strip relative.stripped ?_
      simpa [atAnyDepth, globstar] using found
  rw [trimmed, stripped, relative.trimmed_eq]
  simp [slashed, atAnyDepth, globstar, Text.replace]

theorem alternatives_atAnyDepth (nonempty : glob ≠ []) :
    alternatives (trimmed (atAnyDepth glob)) = .ok [atAnyDepth (trimmed glob)] := by
  rw [relative.trimmed_atAnyDepth nonempty]
  exact alternatives_unbraced relative.isUnbraced_atAnyDepth.opened relative.isUnbraced_atAnyDepth.closed

include compiled

theorem ne_nil : glob ≠ [] := by
  rintro rfl
  exact (compile_eq_ok.mp compiled).1 rfl

theorem exists_compile_atAnyDepth : ∃ deep, compile (atAnyDepth glob) = .ok deep := by
  have nonempty := relative.ne_nil compiled
  have unbraced := relative.isUnbraced_atAnyDepth
  obtain ⟨-, -, each⟩ := (exists_compile_iff relative.alternatives_eq).mp ⟨matcher, compiled⟩
  refine (exists_compile_iff (relative.alternatives_atAnyDepth nonempty)).mpr ?_
  rw [relative.trimmed_atAnyDepth nonempty, groupExpansions_unbraced unbraced.opened unbraced.closed,
    List.forall_mem_singleton]
  refine ⟨by simp [atAnyDepth], Nat.zero_le _, ?_⟩
  exact exists_formsOf_atAnyDepth (each _ (List.mem_singleton.mpr rfl))

/-- The lines of the expanded stars start with a name and do not end in a blank. -/
theorem lines_of_mem_expandStars {one : Text} (expanded : one ∈ expandStars (trimmed glob)) :
    one ≠ [] ∧ one.head? ≠ some '/' ∧ ∀ last, one.getLast? = some last → Text.isBlank last = false := by
  have nonempty := (compile_eq_ok.mp compiled).1
  have member := (split_of_mem_expandStars expanded).1
  have ends := getLast?_join_of_mem_spreadAll member
  rw [Text.join_split, Text.join_split] at ends
  refine ⟨?_, ?_, fun last found => isBlank_last_of_trimmed (ends.symm.trans found)⟩
  · rintro rfl
    exact nonempty (List.getLast?_eq_none_iff.mp ends.symm)
  · intro slash
    obtain ⟨rest, rfl⟩ := List.head?_eq_some_iff.mp slash
    have first := head?_of_mem_spreadAll member (by simp [Text.split])
    obtain ⟨others, shape⟩ := List.head?_eq_some_iff.mp first
    cases others with
    | nil =>
        have whole := Text.join_split '/' (trimmed glob)
        rw [shape] at whole
        exact nonempty whole.symm
    | cons next others =>
        have named := relative.named
        rw [← relative.trimmed_eq, shape] at named
        simp at named

variable (deepCompiled : compile (atAnyDepth glob) = .ok deep)

include deepCompiled

/-- Each line of the glob has a line with a globstar in front of it. -/
theorem accepts_of_fits {path deeper : Path} (accepted : matcher.accepts path = true)
    (follows : ∀ one segments isDirectory, segments ≠ [] →
      lineSegments (anchoredLine one) = (segments, isDirectory) →
      lineSegments (anchoredLine (atAnyDepth one)) = (globstar :: segments, isDirectory) →
      Fits (formOf? one) (subject path.text) → Fits (formOf? (atAnyDepth one)) (subject deeper.text)) :
    deep.accepts deeper = true := by
  rw [Matcher.accepts, acceptsText_iff_of_compile compiled relative.alternatives_eq] at accepted
  obtain ⟨glob, chosen, one, expanded, fits⟩ := accepted
  obtain rfl := List.mem_singleton.mp chosen
  obtain ⟨nonempty, front, kept⟩ := relative.lines_of_mem_expandStars compiled expanded
  obtain ⟨segments, isDirectory, some, line, longer⟩ := lineSegments_atAnyDepth nonempty front kept
  have split := relative.alternatives_atAnyDepth (relative.ne_nil compiled)
  rw [Matcher.accepts, acceptsText_iff_of_compile deepCompiled split]
  exact ⟨_, List.mem_singleton.mpr rfl, _, mem_expandStars_atAnyDepth.mpr ⟨one, expanded, rfl⟩,
    follows one segments isDirectory some line longer fits⟩

theorem accepts_deep {path : Path} (accepted : matcher.accepts path = true)
    (shown : ∃ character ∈ subject path.text, character ≠ '\n') : deep.accepts path = true :=
  relative.accepts_of_fits compiled deepCompiled accepted fun _ _ _ some line longer fits =>
    fits_deep line longer some shown fits

theorem accepts_below {path above : Path} (accepted : matcher.accepts path = true)
    (free : ¬ path.IsAbsolute) (start : ¬ above.IsAbsolute) (names : above.names ≠ [])
    (seen : subject above.text ≠ []) (inLine : '\n' ∉ subject above.text) :
    deep.accepts (above ++ path) = true := by
  have some : path.names ≠ [] := by
    intro none
    have dot : path.text = ['.'] := by simp [Path.text, none, show path.anchor = .here from not_not.mp free]
    have refused : matcher.accepts path = false := acceptsText_of_subject_eq_nil compiled (by rw [dot]; rfl)
    exact Bool.eq_false_iff.mp refused accepted
  have written := text_of_names free some
  obtain ⟨front, member, shape⟩ := subject_cases (written ▸ join_ne_dot path.named some)
  -- The slash below the directories is the one in front of the rest, or the last one of two.
  obtain ⟨between, slash, clear⟩ : ∃ between, '/' :: front = between ++ ['/'] ∧ '\n' ∉ between := by
    simp only [List.mem_cons, List.not_mem_nil, or_false] at member
    rcases member with rfl | rfl | rfl
    · exact ⟨[], rfl, by simp⟩
    · exact ⟨['/'], rfl, by decide⟩
    · exact ⟨['/', '.'], rfl, by decide⟩
  have whole :
      subject (above ++ path).text = (subject above.text ++ between) ++ '/' :: subject path.text := by
    rw [subject_text_append start names free some, ← written, shape, ← List.cons_append, slash]
    simp
  refine relative.accepts_of_fits compiled deepCompiled accepted fun _ _ _ some line longer fits => ?_
  rw [whole]
  exact fits_deep_of_above line longer some (by simp [seen]) (by simp [inLine, clear]) fits

end IsRelativeGlob

/-- What the glob accepts, it accepts with a globstar in front of it and directories in front of the path. -/
def Deepens (glob : Text) (path deeper : Path) : Prop :=
  ∀ matcher, compile glob = .ok matcher → matcher.accepts path = true →
    ∃ deep, compile (atAnyDepth glob) = .ok deep ∧ deep.accepts deeper = true

/-- Of the path, matchers see line breaks and nothing else. -/
def IsBroken (path : Path) : Prop :=
  subject path.text ≠ [] ∧ ∀ character ∈ subject path.text, character = '\n'

/-- No line break is in the way of a globstar, and something is left of the directories when they are read. -/
structure IsCrossable (above : Path) : Prop where
  inLine : ∀ name ∈ above.names, '\n' ∉ name
  seen : above.names ≠ [['\\']]
  apart : above.names ≠ [['.', '\\']]

theorem replace_slashed {text : Text} (clear : '/' ∉ text) : (slashed text).replace '/' '\\' = text := by
  rw [slashed, Text.replace, Text.replace, List.map_map]
  refine (List.map_congr_left fun character member => ?_).trans (List.map_id' text)
  have other : character ≠ '/' := fun same => clear (same ▸ member)
  by_cases back : character = '\\'
  · simp [back]
  · simp [back, other]

section Above

variable {above : Path} (start : ¬ above.IsAbsolute) (names : above.names ≠ [])

include start names

/-- Only a backslash, with a dot in front or not, is read as nothing. -/
theorem names_of_subject_eq_nil (empty : subject above.text = []) :
    above.names = [['\\']] ∨ above.names = [['.', '\\']] := by
  have written := text_of_names start names
  obtain ⟨front, member, shape⟩ := subject_cases (written ▸ join_ne_dot above.named names)
  rw [empty, List.append_nil, written] at shape
  have short : (Text.join '/' above.names).length ≤ 2 := by
    have fronts : ∀ front ∈ ([[], ['/'], ['.', '/']] : List Text), front.length ≤ 2 := by decide
    have same := congrArg List.length shape
    rw [slashed, Text.replace, List.length_map] at same
    exact same ▸ fronts front member
  obtain ⟨name, rest, split⟩ := List.exists_cons_of_ne_nil names
  have named := above.named
  rw [split] at named shape short ⊢
  cases rest with
  | nil =>
      have clear := (named name (List.mem_cons_self ..)).2.1
      have whole := replace_slashed clear
      rw [show Text.join '/' [name] = name from rfl] at shape
      rw [shape] at whole
      simp only [List.mem_cons, List.not_mem_nil, or_false] at member
      rcases member with rfl | rfl | rfl
      · exact absurd whole.symm (named name (List.mem_cons_self ..)).1
      · exact .inl (by rw [← whole]; rfl)
      · exact .inr (by rw [← whole]; rfl)
  | cons next rest =>
      have first := List.length_pos_iff.mpr (named name (List.mem_cons_self ..)).1
      have later := join_ne_nil (fun other held => named other (List.mem_cons_of_mem _ held)) (by simp)
      have behind := List.length_pos_iff.mpr later
      rw [Text.join_cons '/' name (by simp), List.length_append, List.length_cons] at short
      omega

theorem isCrossable_iff : IsCrossable above ↔ subject above.text ≠ [] ∧ '\n' ∉ subject above.text := by
  have written := text_of_names start names
  constructor
  · intro crossable
    refine ⟨fun empty => ?_, fun inside => ?_⟩
    · exact (names_of_subject_eq_nil start names empty).elim crossable.seen crossable.apart
    · have within := mem_of_mem_subject (by decide) inside
      rw [written] at within
      exact Text.notMem_join (by decide) crossable.inLine within
  · intro found
    obtain ⟨seen, inLine⟩ := found
    refine ⟨fun name member inside => ?_, fun same => ?_, fun same => ?_⟩
    · obtain ⟨front, held, shape⟩ := subject_cases (written ▸ join_ne_dot above.named names)
      have fronts : ∀ front ∈ ([[], ['/'], ['.', '/']] : List Text), '\n' ∉ front := by decide
      have within : '\n' ∈ slashed above.text :=
        List.mem_map.mpr ⟨'\n', written ▸ Text.mem_join_of_mem member inside, rfl⟩
      rw [shape] at within
      exact (List.mem_append.mp within).elim (fronts front held) inLine
    · exact seen (by rw [written, same]; rfl)
    · exact seen (by rw [written, same]; rfl)

/-- One name below the directories is enough to tell. -/
theorem isCrossable_of_deepens
    (deepens : Deepens ['a'] ⟨.here, [['a']], by decide⟩ (above ++ ⟨.here, [['a']], by decide⟩)) :
    IsCrossable above := by
  have compiled : compile ['a'] = .ok (.compiled ['a'] [.covering [.one (.only 'a')] .finish]) :=
    eq_ok_of_toOption (by decide +kernel)
  have deeper : compile (atAnyDepth ['a']) =
      .ok (.compiled (atAnyDepth ['a']) [.covering [.above, .one (.only 'a')] .finish]) :=
    eq_ok_of_toOption (by decide +kernel)
  have read : subject (above ++ ⟨.here, [['a']], by decide⟩ : Path).text = subject above.text ++ ['/', 'a'] :=
    subject_text_append start names (by decide) (by decide)
  obtain ⟨deep, made, accepted⟩ := deepens _ compiled (by decide)
  obtain rfl := Except.ok.inj (deeper.symm.trans made)
  rw [Matcher.accepts, Matcher.acceptsText, List.any_cons, List.any_nil, Bool.or_false, read,
    Form.accepts_covering_iff] at accepted
  obtain ⟨_, rest, same, ⟨crossed, _, rfl, covers, one⟩, finished⟩ := accepted
  obtain ⟨character, _, rfl, held, rfl⟩ := Piece.rowCovers_one.mp one
  obtain rfl : character = 'a' := by simpa [CharSet.has] using held
  obtain rfl : rest = [] := by
    refine (isOver_iff.mp finished).resolve_right fun wrapped => ?_
    have ends := congrArg List.getLast? same
    simp [wrapped] at ends
  have whole : (subject above.text ++ ['/']) ++ ['a'] = crossed ++ ['a'] := by simpa using same
  obtain rfl := List.append_cancel_right whole
  rcases covers with none | ⟨crossed, some, inLine, same⟩
  · simp at none
  · obtain rfl := List.append_cancel_right same
    exact (isCrossable_iff start names).mpr ⟨some, inLine⟩

end Above

theorem not_isBroken_of_deepens {path : Path} (deepens : Deepens star path path) : ¬ IsBroken path := by
  intro broken
  obtain ⟨some, breaks⟩ := broken
  have compiled : compile star = .ok (.compiled star [.covering wholeName .slashFinish]) :=
    eq_ok_of_toOption (by decide +kernel)
  have deeper : compile (atAnyDepth star) = .ok (.compiled (atAnyDepth star) [.visible]) :=
    eq_ok_of_toOption (by decide +kernel)
  have clear : '/' ∉ subject path.text := fun inside => absurd (breaks _ inside) (by decide)
  have accepted : Matcher.accepts (.compiled star [.covering wholeName .slashFinish]) path = true := by
    rw [Matcher.accepts, Matcher.acceptsText, List.any_cons, List.any_nil, Bool.or_false,
      Form.accepts_covering_iff]
    exact ⟨_, [], (List.append_nil _).symm, Piece.rowCovers_wholeName.mpr ⟨some, clear⟩, rfl⟩
  obtain ⟨deep, made, accepted⟩ := deepens _ compiled accepted
  obtain rfl := Except.ok.inj (deeper.symm.trans made)
  obtain ⟨character, inside, other⟩ : ∃ character ∈ subject path.text, character ≠ '\n' := by
    simpa [Matcher.accepts, Matcher.acceptsText, Form.accepts] using accepted
  exact other (breaks character inside)

/-- A globstar in front of a relative glob keeps what the glob matches, exactly unless that is line breaks
alone, and finds it again below all directories that it can cross, and only below these. -/
theorem deepens_iff (path : Path) {above : Path} (start : ¬ above.IsAbsolute) (names : above.names ≠ []) :
    ((∀ glob, IsRelativeGlob glob → Deepens glob path path) ↔ ¬ IsBroken path) ∧
      ((∀ glob, IsRelativeGlob glob → ∀ below : Path, ¬ below.IsAbsolute →
        Deepens glob below (above ++ below)) ↔ IsCrossable above) := by
  refine ⟨?_, ?_⟩
  · constructor
    · intro all
      exact not_isBroken_of_deepens (all star ⟨by decide, by decide, by decide, by decide⟩)
    · intro whole glob relative matcher compiled accepted
      obtain ⟨deep, made⟩ := relative.exists_compile_atAnyDepth compiled
      refine ⟨deep, made, relative.accepts_deep compiled made accepted ?_⟩
      refine Classical.byContradiction fun none => whole ⟨?_, ?_⟩
      · intro empty
        exact Bool.eq_false_iff.mp (acceptsText_of_subject_eq_nil compiled empty) accepted
      · intro character inside
        exact Classical.byContradiction fun other => none ⟨character, inside, other⟩
  · constructor
    · intro all
      refine isCrossable_of_deepens start names (all ['a'] ?_ _ (by decide))
      exact ⟨by decide, by decide, by decide, by decide⟩
    · intro crossable glob relative below free matcher compiled accepted
      obtain ⟨seen, inLine⟩ := (isCrossable_iff start names).mp crossable
      obtain ⟨deep, made⟩ := relative.exists_compile_atAnyDepth compiled
      exact ⟨deep, made, relative.accepts_below compiled made accepted free start names seen inLine⟩

theorem deepens_secret :
    ∃ deep, compile (.ofString "**/secret/**") = .ok deep ∧
      deep.accepts (.ofString "secret/f") = true ∧ deep.accepts (.ofString "x/y/secret/f") = true := by
  have relative : IsRelativeGlob (.ofString "secret/**") := ⟨by decide, by decide, by decide, by decide⟩
  have taken :
      (compile (.ofString "secret/**")).toOption.map (·.accepts (.ofString "secret/f")) = some true := by
    decide +kernel
  obtain ⟨matcher, compiled, accepted⟩ := Option.map_eq_some_iff.mp taken
  have whole : ¬ IsBroken (.ofString "secret/f") := fun broken =>
    absurd (broken.2 'f' (by decide)) (by decide)
  have apart : IsCrossable (.ofString "x/y") := ⟨by decide, by decide, by decide⟩
  obtain ⟨here, below⟩ := @deepens_iff (.ofString "secret/f") (.ofString "x/y") (by decide) (by decide)
  obtain ⟨deep, made, first⟩ := here.mpr whole _ relative matcher (eq_ok_of_toOption compiled) accepted
  obtain ⟨again, remade, second⟩ :=
    below.mpr apart _ relative _ (by decide) matcher (eq_ok_of_toOption compiled) accepted
  obtain rfl := Except.ok.inj (made.symm.trans remade)
  exact ⟨deep, made, first, second⟩

/-- A relative glob that misses a path at some depth. -/
def MissesDeeper (glob : Text) (path deeper : Path) : Prop :=
  IsRelativeGlob glob ∧ ¬ path.IsAbsolute ∧ ¬ Deepens glob path deeper

theorem missesDeeper_of_refused {glob : Text} {path deeper : Path} (relative : IsRelativeGlob glob)
    (free : ¬ path.IsAbsolute)
    (accepted : (compile glob).toOption.map (·.accepts path) = some true)
    (refused : (compile (atAnyDepth glob)).toOption.map (·.accepts deeper) = some false) :
    MissesDeeper glob path deeper := by
  refine ⟨relative, free, fun deepens => ?_⟩
  obtain ⟨matcher, compiled, accepted⟩ := Option.map_eq_some_iff.mp accepted
  obtain ⟨deep, made, accepted⟩ := deepens matcher (eq_ok_of_toOption compiled) accepted
  simp [made, accepted, Except.toOption] at refused

/-- A directory with a line break in its name, one named by a backslash, and a path that is a line break. -/
theorem not_deepens :
    MissesDeeper (.ofString "secret/**") (.ofString "secret/f") (.ofString "x\ny" ++ .ofString "secret/f") ∧
      MissesDeeper ['a'] (.ofString "a") (.ofString "\\" ++ .ofString "a") ∧
        MissesDeeper star (.ofString "\n") (.ofString "\n") := by
  refine ⟨?_, ?_, ?_⟩ <;>
    exact missesDeeper_of_refused ⟨by decide, by decide, by decide, by decide⟩ (by decide) (by decide +kernel)
      (by decide +kernel)

end PathSearch.Glob
