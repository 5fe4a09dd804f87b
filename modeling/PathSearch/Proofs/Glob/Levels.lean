import PathSearch.Proofs.Glob.Compiled
import PathSearch.Proofs.Glob.Prefix

/-!
Globs without two stars in a row keep to their depth: each segment covers one name of a path. A class is
held to that only if the slash is none of its members.
-/

namespace PathSearch.Glob

/-- A segment that covers no slash. -/
structure IsLevel (segment : Text) : Prop where
  nonempty : segment ≠ []
  clear : '/' ∉ segment
  single : crosses segment = false
  classes : ∀ inner ∈ classTexts segment, ∀ charClass ∈ CharClass.read? inner, charClass.has '/' = false

section Segment

variable {segment name : Text} {pieces : List Piece}

theorem slash_notMem_of_rowCovers (clear : '/' ∉ segment)
    (classes : ∀ inner ∈ classTexts segment, ∀ charClass ∈ CharClass.read? inner,
      charClass.has '/' = false)
    (made : segmentPieces? segment = some pieces) (covers : Piece.RowCovers pieces name) :
    '/' ∉ name := by
  fun_induction segmentPieces? segment generalizing pieces name with
  | case1 =>
      cases made
      simp [show name = [] from covers]
  | case2 rest ih =>
      obtain ⟨others, held, rfl⟩ := Option.map_eq_some_iff.mp made
      obtain ⟨inside, ending, rfl, free, later⟩ := Piece.rowCovers_many.mp covers
      rw [classTexts_cons (by decide)] at classes
      simp [free, ih (by simp_all) classes held later]
  | case3 rest _ ih =>
      obtain ⟨others, held, rfl⟩ := Option.map_eq_some_iff.mp made
      obtain ⟨character, ending, rfl, free, later⟩ := Piece.rowCovers_one.mp covers
      rw [classTexts_cons (by decide)] at classes
      simp only [CharSet.has, bne_iff_ne] at free
      simp [Ne.symm free, ih (by simp_all) classes held later]
  | case4 rest unclosed _ _ ih =>
      obtain ⟨others, held, rfl⟩ := Option.map_eq_some_iff.mp made
      obtain ⟨character, ending, rfl, free, later⟩ := Piece.rowCovers_one.mp covers
      rw [classTexts_unclosed unclosed] at classes
      simp only [CharSet.has, beq_iff_eq] at free
      simp [free, ih (by simp_all) classes held later]
  | case5 rest inner beyond found _ charClass others held read _ _ ih =>
      cases made
      obtain ⟨character, ending, rfl, member, later⟩ := Piece.rowCovers_one.mp covers
      rw [classTexts_enclosed found, List.forall_mem_cons] at classes
      have apart : character ≠ '/' := by
        rintro rfl
        exact absurd member (by simp [CharSet.has, classes.1 charClass read])
      have free : '/' ∉ beyond := by
        intro inside
        exact clear (by simp [eq_of_enclosed? found, inside])
      simp [Ne.symm apart, ih free classes.2 held later]
  | case6 => cases made
  | case7 character rest star mark bracket ih =>
      obtain ⟨others, held, rfl⟩ := Option.map_eq_some_iff.mp made
      obtain ⟨_, ending, rfl, same, later⟩ := Piece.rowCovers_one.mp covers
      rw [classTexts_cons bracket] at classes
      simp only [CharSet.has, beq_iff_eq] at same
      simp only [List.mem_cons, not_or] at clear ⊢
      exact ⟨same ▸ clear.1, ih clear.2 classes held later⟩

theorem IsLevel.ne_globstar (level : IsLevel segment) : segment ≠ globstar := by
  rintro rfl
  cases level.single

theorem IsLevel.isApart (level : IsLevel segment) : IsApart segment := ⟨level.nonempty, .inr level.single⟩

theorem IsLevel.name_of_rowCovers (level : IsLevel segment) (named : segment ≠ star)
    (made : segmentPieces? segment = some pieces) (covers : Piece.RowCovers pieces name) :
    name ≠ [] ∧ '/' ∉ name := by
  refine ⟨?_, slash_notMem_of_rowCovers level.clear level.classes made covers⟩
  rintro rfl
  exact level.isApart.not_rowCovers_nil level.ne_globstar named made covers

end Segment

section Segments

variable {segments : List Text} {text : Text}

/-- Level segments in a row cover one name each. What follows the last one is no part of the path, but for
the slash, and what may follow it, that a star at the end lets stand. -/
theorem exists_parts_of_fits (level : ∀ segment ∈ segments, IsLevel segment) (nonempty : segments ≠ [])
    {slash : Bool} (fits : Fits (coveringFrom? slash segments) text) :
    ∃ parts tail, text = leadText slash ++ Text.join '/' parts ++ tail ∧
      parts.length = segments.length ∧ (∀ part ∈ parts, part ≠ [] ∧ '/' ∉ part) ∧
        (isOver tail = true ∨
          segments.getLast? = some star ∧ Ending.slashFinish.accepts tail = true) := by
  induction segments generalizing slash text with
  | nil => exact absurd rfl nonempty
  | cons segment segments ih =>
      have first := level segment (List.mem_cons_self ..)
      cases segments with
      | nil =>
          by_cases named : segment = star
          · subst named
            obtain ⟨name, beyond, rfl, shown, clear, finished⟩ := fits_last_star.mp fits
            exact ⟨[name], beyond, rfl, rfl, by simp [shown, clear], .inr ⟨rfl, finished⟩⟩
          · obtain ⟨pieces, name, beyond, made, rfl, covers, finished⟩ :=
              (fits_last first.ne_globstar named).mp fits
            have held := first.name_of_rowCovers named made covers
            exact ⟨[name], beyond, rfl, rfl, by simpa using held, .inl finished⟩
      | cons next rest =>
          obtain ⟨pieces, name, beyond, made, rfl, covers, later⟩ :=
            (fits_segment first.ne_globstar).mp fits
          have held : name ≠ [] ∧ '/' ∉ name := by
            by_cases named : segment = star
            · subst named
              cases made
              exact Piece.rowCovers_wholeName.mp covers
            · rw [namePieces?, if_neg named] at made
              exact first.name_of_rowCovers named made covers
          obtain ⟨parts, tail, rfl, length, proper, ended⟩ :=
            ih (fun other member => level other (List.mem_cons_of_mem _ member)) (by simp) later
          have more : parts ≠ [] := by
            rintro rfl
            simp at length
          refine ⟨name :: parts, tail, ?_, by simp [length], ?_, by simpa using ended⟩
          · rw [Text.join_cons '/' name more]
            simp [leadText_true]
          · rw [List.forall_mem_cons]
            exact ⟨held, proper⟩

end Segments

theorem isOver_iff {tail : Text} : isOver tail = true ↔ tail = [] ∨ tail = ['\n'] := by simp [isOver]

theorem slashFinish_iff {tail : Text} :
    Ending.slashFinish.accepts tail = true ↔
      tail = [] ∨ tail = ['\n'] ∨ tail = ['/'] ∨ tail = ['/', '\n'] := by
  cases tail with
  | nil => simp [Ending.accepts, isOver]
  | cons first rest => simp [Ending.accepts, isOver, and_or_left]

theorem split_join_append {parts : List Text} (nonempty : parts ≠ [])
    (proper : ∀ part ∈ parts, part ≠ [] ∧ '/' ∉ part) {tail : Text}
    (ended : tail = [] ∨ tail = ['\n'] ∨ tail = ['/']) :
    ∃ shown, shown.length = parts.length ∧ (∀ part ∈ shown, part ≠ []) ∧
      ((Text.join '/' parts ++ tail).split '/' = shown ∨
        (Text.join '/' parts ++ tail).split '/' = shown ++ [[]]) := by
  have split := Text.split_join nonempty fun part member => (proper part member).2
  have some : ∀ part ∈ parts, part ≠ [] := fun part member => (proper part member).1
  rcases ended with rfl | rfl | rfl
  · exact ⟨parts, rfl, some, .inl (by rw [List.append_nil, split])⟩
  · obtain ⟨before, last, alone, longer⟩ :=
      Text.exists_split_append (show '/' ∉ ['\n'] by decide) (Text.join '/' parts)
    obtain rfl := split.symm.trans alone
    refine ⟨before ++ [last ++ ['\n']], by simp, ?_, .inl longer⟩
    intro part member
    rcases List.mem_append.mp member with member | member
    · exact some part (List.mem_append_left _ member)
    · simp [List.mem_singleton.mp member]
  · exact ⟨parts, rfl, some, .inr (by rw [Text.split_append, split]; rfl)⟩

theorem isBlank_last_of_trimmed {pattern : Text} {last : Char}
    (found : (trimmed pattern).getLast? = some last) : Text.isBlank last = false := by
  rw [trimmed, slashed, Text.replace, List.getLast?_map, Option.map_eq_some_iff] at found
  obtain ⟨written, ends, rfl⟩ := found
  split
  · decide
  · exact Text.kept_of_getLast?_trimRight ends

/-- A relative glob, as it is compiled, in which nothing may cross directories: no braces, no two stars in
a row, no empty segment, and no class with a slash among its members. -/
structure IsLevelGlob (pattern : Text) : Prop where
  opened : '\x7b' ∉ trimmed pattern
  closed : '\x7d' ∉ trimmed pattern
  single : crosses (trimmed pattern) = false
  named : [] ∉ (trimmed pattern).split '/'
  classes : ∀ segment ∈ (trimmed pattern).split '/', ∀ inner ∈ classTexts segment,
    ∀ charClass ∈ CharClass.read? inner, charClass.has '/' = false

namespace IsLevelGlob

variable {pattern : Text} (level : IsLevelGlob pattern)

include level

theorem isLevel : ∀ segment ∈ (trimmed pattern).split '/', IsLevel segment := by
  intro segment member
  refine ⟨?_, Text.separator_notMem_of_mem_split member, ?_, level.classes segment member⟩
  · rintro rfl
    exact level.named member
  · have apart := level.single
    rw [← Bool.not_eq_true, crosses, occursIn_iff_infix] at apart ⊢
    exact fun inside => apart (inside.trans (Text.infix_of_mem_split member))

theorem lineSegments_eq :
    lineSegments (anchoredLine (trimmed pattern)) = ((trimmed pattern).split '/', false) := by
  have line := lineSegments_join (fun segment member => ⟨(level.isLevel segment member).nonempty,
    (level.isLevel segment member).clear⟩) (Text.split_ne_nil '/' (trimmed pattern)) ?_
  · rwa [Text.join_split] at line
  · rw [Text.join_split]
    exact fun last found => isBlank_last_of_trimmed found

theorem fits_iff {text : Text} :
    (∃ one ∈ expandStars (trimmed pattern), Fits (formOf? one) text) ↔
      Fits (coveringFrom? false ((trimmed pattern).split '/')) text := by
  have segments := level.isLevel
  obtain ⟨first, rest, shape⟩ :=
    List.exists_cons_of_ne_nil (Text.split_ne_nil '/' (trimmed pattern))
  have form : formOf? (trimmed pattern) = coveringFrom? false ((trimmed pattern).split '/') := by
    have other : first ≠ globstar := (segments first (by simp [shape])).ne_globstar
    have merged := mergeGlobstars_eq_self fun segment member => (segments segment member).ne_globstar
    rw [shape] at merged
    simp only [formOf?, level.lineSegments_eq, shape, merged]
    rw [if_neg (by simp [other]), if_neg (by simp [other]), if_neg (by simp [other]),
      covering?_of_ne other]
  have spread := spreadAll_eq_of_single fun segment member => (segments segment member).single
  simp only [mem_expandStars, spread, List.mem_singleton, exists_eq_left, Text.join_split,
    exists_eq_left', form]

end IsLevelGlob

/-- How deep a matcher takes a path to be: a backslash counts as a slash. -/
def levels (path : Path) : Nat := ((subject path.text).split '/').countP fun piece => piece ≠ []

theorem levels_of_unslashed {path : Path} (single : path.anchor ≠ .doubleRoot)
    (unslashed : ∀ name ∈ path.names, '\\' ∉ name) : levels path = path.names.length := by
  rw [levels, subject_text single unslashed]
  by_cases none : path.names = []
  · rw [none]
    rfl
  · rw [Text.split_join none fun name member => (path.named name member).2.1, List.countP_eq_length]
    exact fun name member => by simp [(path.named name member).1]

theorem subject_append {first second : Text} (some : first ≠ []) (other : first ≠ ['.']) :
    subject (first ++ '/' :: second) = subject first ++ '/' :: slashed second := by
  have whole : slashed (first ++ '/' :: second) = slashed first ++ '/' :: slashed second := by
    simp [slashed, Text.replace]
  have shown : slashed first ≠ [] := by simpa [slashed, Text.replace] using some
  have dotless := slashed_ne_dot other
  rw [subject, subject, whole]
  generalize slashed first = looked at shown dotless
  rcases looked with _ | ⟨initial, _ | ⟨next, rest⟩⟩
  · exact absurd rfl shown
  · have apart : initial ≠ '.' := fun same => dotless (by rw [same])
    by_cases slash : initial = '/'
    · simp [slash]
    · simp [slash, apart]
  · by_cases slash : initial = '/'
    · simp [slash]
    · by_cases lead : initial = '.' ∧ next = '/'
      · simp [lead]
      · simp_all

theorem join_ne_nil {names : List Text} (named : ∀ name ∈ names, IsName name) (some : names ≠ []) :
    Text.join '/' names ≠ [] := by
  intro empty
  have split := Text.split_join some fun name member => (named name member).2.1
  rw [empty] at split
  exact (named [] (by simp [← split, Text.split])).1 rfl

theorem join_ne_dot {names : List Text} (named : ∀ name ∈ names, IsName name) (some : names ≠ []) :
    Text.join '/' names ≠ ['.'] := by
  intro dot
  have split := Text.split_join some fun name member => (named name member).2.1
  rw [dot] at split
  exact (named ['.'] (by simp [← split, Text.split])).2.2 rfl

theorem subject_text_append {path below : Path} (relative : ¬ path.IsAbsolute) (some : path.names ≠ [])
    (other : ¬ below.IsAbsolute) (more : below.names ≠ []) :
    subject (path ++ below).text = subject path.text ++ '/' :: slashed (Text.join '/' below.names) := by
  have whole : path ++ below = path.append below := rfl
  have names : (path ++ below).names = path.names ++ below.names := by
    rw [whole, Path.append, if_neg other]
  have anchor : ¬ (path ++ below).IsAbsolute := by
    rw [whole, Path.append, if_neg other]
    exact relative
  rw [text_of_names anchor (by simp [names, some]), text_of_names relative some, names,
    Text.join_append '/' some more]
  exact subject_append (join_ne_nil path.named some) (join_ne_dot path.named some)

/-- A star as the last segment takes a slash before the line break that a path ends in for the end of the
path. -/
def Overreads (pattern : Text) (path : Path) : Prop :=
  ((trimmed pattern).split '/').getLast? = some star ∧ ['/', '\n'] <:+ subject path.text

instance (pattern : Text) (path : Path) : Decidable (Overreads pattern path) :=
  inferInstanceAs (Decidable (_ ∧ _))

section Accepted

variable {pattern : Text} (level : IsLevelGlob pattern) {matcher : Matcher}
  (compiled : compile pattern = .ok matcher)

include level compiled

theorem exists_split_of_accepts {path : Path} (kept : ¬ Overreads pattern path)
    (accepted : matcher.accepts path = true) :
    ∃ shown, shown.length = ((trimmed pattern).split '/').length ∧ (∀ part ∈ shown, part ≠ []) ∧
      ((subject path.text).split '/' = shown ∨ (subject path.text).split '/' = shown ++ [[]]) := by
  have split := alternatives_unbraced level.opened level.closed
  rw [Matcher.accepts, acceptsText_iff_of_compile compiled split] at accepted
  simp only [List.mem_singleton, exists_eq_left, level.fits_iff] at accepted
  obtain ⟨parts, tail, read, length, proper, ended⟩ :=
    exists_parts_of_fits level.isLevel (Text.split_ne_nil '/' (trimmed pattern)) accepted
  rw [leadText_false, List.nil_append] at read
  have some : parts ≠ [] := by
    rintro rfl
    exact Text.split_ne_nil '/' (trimmed pattern) (List.eq_nil_of_length_eq_zero length.symm)
  rw [← length, read]
  apply split_join_append some proper
  rcases ended with ended | ⟨final, ended⟩
  · exact (isOver_iff.mp ended).imp_right .inl
  · rcases slashFinish_iff.mp ended with rfl | rfl | rfl | rfl
    · exact .inl rfl
    · exact .inr (.inl rfl)
    · exact .inr (.inr rfl)
    · exact absurd ⟨final, read ▸ List.suffix_append ..⟩ kept

theorem accepts_levels {path : Path} (relative : ¬ path.IsAbsolute) (kept : ¬ Overreads pattern path)
    (accepted : matcher.accepts path = true) :
    levels path = ((trimmed pattern).split '/').length ∧
      ((∀ name ∈ path.names, '\\' ∉ name) →
        path.names.length = ((trimmed pattern).split '/').length) ∧
      ∀ below : Path, ¬ below.IsAbsolute → below.names ≠ [] → ¬ Overreads pattern (path ++ below) →
        matcher.accepts (path ++ below) = false := by
  obtain ⟨shown, length, some, read⟩ := exists_split_of_accepts level compiled kept accepted
  have deep : levels path = ((trimmed pattern).split '/').length := by
    have whole : shown.countP (fun piece => piece ≠ []) = shown.length :=
      List.countP_eq_length.mpr fun part member => by simp [some part member]
    rw [levels, ← length]
    rcases read with read | read
    · rw [read, whole]
    · rw [read, List.countP_append, whole]
      rfl
  refine ⟨deep, ?_, ?_⟩
  · intro unslashed
    rw [← levels_of_unslashed (by simp [not_not.mp relative]) unslashed, deep]
  · intro below other nonempty free
    rw [Bool.eq_false_iff]
    intro again
    obtain ⟨others, same, _, reread⟩ := exists_split_of_accepts level compiled free again
    have names : path.names ≠ [] := by
      intro none
      have trace := levels_of_unslashed (by simp [not_not.mp relative])
        (show ∀ name ∈ path.names, '\\' ∉ name by simp [none])
      rw [deep, none] at trace
      exact Text.split_ne_nil '/' (trimmed pattern) (List.eq_nil_of_length_eq_zero trace)
    rw [subject_text_append relative names other nonempty, Text.split_append] at reread
    have later := List.length_pos_iff.mpr (Text.split_ne_nil '/' (slashed (Text.join '/' below.names)))
    -- The outer path fills every segment, so the inner one could only add a trailing slash.
    have last : (slashed (Text.join '/' below.names)).split '/' = [[]] := by
      rcases read with read | read <;> rcases reread with reread | reread
      all_goals have lengths := congrArg List.length reread
      all_goals simp only [read, List.length_append, List.length_singleton, length, same] at lengths
      · omega
      · rw [read] at reread
        exact (List.append_inj reread (by rw [length, same])).2
      · omega
      · omega
    have empty := Text.join_split '/' (slashed (Text.join '/' below.names))
    rw [last] at empty
    exact join_ne_nil below.named nonempty (List.map_eq_nil_iff.mp empty.symm)

end Accepted

theorem accepts_levels_two_segments :
    ∃ matcher, compile ['a', '[', '0', '-', '9', ']', '/', '*'] = .ok matcher ∧
      matcher.accepts ⟨.here, [['a', '7'], ['x']], by decide⟩ = true ∧
        levels ⟨.here, [['a', '7'], ['x']], by decide⟩ = 2 ∧
          matcher.accepts ⟨.here, [['a', '7'], ['x'], ['y']], by decide⟩ = false := by
  let matcher : Matcher := .compiled ['a', '[', '0', '-', '9', ']', '/', '*']
    [.covering [.one (.only 'a'), .one (.listed ⟨false, [⟨'0', '9'⟩]⟩), .one (.only '/'), .one .inName,
      .many .inName] .slashFinish]
  have level : IsLevelGlob ['a', '[', '0', '-', '9', ']', '/', '*'] :=
    ⟨by decide, by decide, by decide, by decide, by decide +kernel⟩
  have compiled : compile ['a', '[', '0', '-', '9', ']', '/', '*'] = .ok matcher :=
    eq_ok_of_toOption (by decide +kernel)
  have accepted : matcher.accepts ⟨.here, [['a', '7'], ['x']], by decide⟩ = true := by decide +kernel
  obtain ⟨deep, -, inner⟩ := accepts_levels level compiled (by decide) (by decide) accepted
  exact ⟨matcher, compiled, accepted, deep,
    inner ⟨.here, [['y']], by decide⟩ (by decide) (by decide) (by decide)⟩

/-- What the pattern accepts has a name for each of its segments. -/
def KeepsDepth (pattern : Text) (path : Path) : Prop :=
  ∀ matcher, compile pattern = .ok matcher → matcher.accepts path = true →
    path.names.length = ((trimmed pattern).split '/').length

theorem not_keepsDepth {pattern : Text} {matcher : Matcher} {path : Path}
    (compiled : (compile pattern).toOption = some matcher) (accepted : matcher.accepts path = true)
    (other : path.names.length ≠ ((trimmed pattern).split '/').length) : ¬ KeepsDepth pattern path :=
  fun keeps => other (keeps matcher (eq_ok_of_toOption compiled) accepted)

/-- A backslash in a name is a separator to a matcher. A class may cover the slash, and a star at the end
takes a name that is a line break for the end of the path. -/
theorem not_accepts_levels :
    ¬ KeepsDepth ['a', '/', 'b'] ⟨.here, [['a', '\\', 'b']], by decide⟩ ∧
      ¬ KeepsDepth ['a', '[', '!', 'b', ']', 'c'] ⟨.here, [['a'], ['c']], by decide⟩ ∧
        ¬ KeepsDepth ['*'] ⟨.here, [['x'], ['\n']], by decide⟩ := by
  refine ⟨?_, ?_, ?_⟩
  · exact @not_keepsDepth _ (.compiled ['a', '/', 'b']
      [.covering [.one (.only 'a'), .one (.only '/'), .one (.only 'b')] .finish]) _
      (by decide +kernel) (by decide +kernel) (by decide +kernel)
  · exact @not_keepsDepth _ (.compiled ['a', '[', '!', 'b', ']', 'c']
      [.covering [.one (.only 'a'), .one (.listed ⟨true, [⟨'b', 'b'⟩]⟩), .one (.only 'c')] .finish]) _
      (by decide +kernel) (by decide +kernel) (by decide +kernel)
  · exact @not_keepsDepth _ (.compiled ['*'] [.covering [.one .inName, .many .inName] .slashFinish]) _
      (by decide +kernel) (by decide +kernel) (by decide +kernel)

end PathSearch.Glob
