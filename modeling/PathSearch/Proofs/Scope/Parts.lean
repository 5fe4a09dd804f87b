import PathSearch.Proofs.Scope.Located
import PathSearch.Proofs.Scope.Rule

/-!
What becomes of the text of a glob. The segments in front lead to the directory and the others make up the
pattern, but the pattern is made like that of a whole glob: blanks in front of it are dropped, although in the
glob they follow a slash.
-/

namespace PathSearch

open Glob

namespace Path

variable {pieces : List Text}

theorem extend_cons (path : Path) (piece : Text) (pieces : List Text) :
    path.extend (piece :: pieces) = (path ++ ofText piece).extend pieces := rfl

theorem append_piece (path : Path) {piece : Text} (some : piece ≠ []) (whole : '/' ∉ piece) :
    (path ++ ofText piece).anchor = path.anchor ∧
      (path ++ ofText piece).names = path.names ++ [piece].filter fun name => IsName name := by
  by_cases named : IsName piece
  · rw [append_ofText_of_isName path named, List.filter_cons_of_pos (by simpa using named)]
    exact ⟨rfl, rfl⟩
  · have dot : piece = ['.'] := Decidable.byContradiction fun other => named ⟨some, whole, other⟩
    subst dot
    exact ⟨rfl, rfl⟩

section Pieces

variable (some : ∀ piece ∈ pieces, piece ≠ []) (whole : ∀ piece ∈ pieces, '/' ∉ piece)

include some whole

theorem names_extend (path : Path) :
    (path.extend pieces).anchor = path.anchor ∧
      (path.extend pieces).names = path.names ++ pieces.filter fun piece => IsName piece := by
  induction pieces generalizing path with
  | nil => exact ⟨rfl, (List.append_nil _).symm⟩
  | cons piece pieces ih =>
      rw [List.forall_mem_cons] at some whole
      obtain ⟨anchor, names⟩ := path.append_piece some.1 whole.1
      obtain ⟨sameAnchor, moreNames⟩ := ih some.2 whole.2 (path ++ ofText piece)
      rw [extend_cons, sameAnchor, moreNames, anchor, names, List.append_assoc, ← List.filter_append]
      exact ⟨rfl, rfl⟩

/-- Going down one piece after the other is going down all of them at once. -/
theorem extend_eq_append (path : Path) :
    path.extend pieces = path ++ ofText (Text.join '/' pieces) := by
  obtain ⟨anchor, names⟩ := names_extend some whole path
  have here : ¬ (ofText (Text.join '/' pieces)).IsAbsolute := by
    simp [IsAbsolute, ofText, anchor_ofText_of_head (head?_join_ne_of_whole some whole)]
  have joined : path ++ ofText (Text.join '/' pieces) =
      append path (ofText (Text.join '/' pieces)) := rfl
  rw [joined, append, if_neg here]
  exact ext anchor (names.trans (congrArg _ (namesOf_join_eq_filter whole).symm))

theorem extend_root : Path.root.extend pieces = ofText ('/' :: Text.join '/' pieces) := by
  obtain ⟨anchor, names⟩ := names_extend some whole .root
  apply ext
  · rw [anchor]
    exact (anchor_ofText_slash (head?_join_ne_of_whole some whole)).symm
  · rw [names]
    exact ((namesOf_slash _).trans (namesOf_join_eq_filter whole)).symm

end Pieces

end Path

namespace LocatedGlob

/-- The segments of a glob in two parts: those it names literally up to the first wildcard, and the others. -/
structure IsCut (glob : Text) (front back : List Text) : Prop where
  segments : globSegments glob = front ++ back
  literal : ∀ segment ∈ front, isWildcardSegment segment = false
  wild : ∀ segment ∈ back.head?, isWildcardSegment segment = true

/-- Where the segments in front lead from the root, or from `start` for a glob that does not begin there. -/
def frontPath (current start : Path) (glob : Text) (front : List Text) : Path :=
  if isAbsoluteGlob glob then Path.normalize current (Path.root.extend front)
  else if front = [] then start
  else Path.normalize current (start.extend front)

/-- The other segments as they stand in the glob, with the slash that it ends in. -/
def backText (glob : Text) (back : List Text) : Text :=
  Text.join '/' back ++ if (slashed glob).getLast? = some '/' then ['/'] else []

/-- Nothing of the glob is lost: the segments in front are in the directory, all of it is wanted just if there
are no others, and otherwise the others are the pattern, character for character. -/
structure KeepsAll (current start : Path) (glob : Text) (front back : List Text) (located : LocatedGlob) :
    Prop where
  base : located.base = frontPath current start glob front
  everything : located.matcher = .everything ↔ back = []
  pattern : back ≠ [] → located.matcher.pattern = backText glob back

/-- No blank comes directly after the slash, or the start of the glob, before these segments. -/
def StartsShown (back : List Text) : Prop :=
  ∀ segment ∈ back.head?, ∀ character ∈ segment.head?, Text.isBlank character = false

variable {current start : Path} {glob : Text} {front back : List Text} {located : LocatedGlob}

theorem isBlank_last_slashed (stripped : glob.strip = glob) {character : Char}
    (last : (slashed glob).getLast? = some character) : Text.isBlank character = false := by
  rw [slashed, Text.replace, List.getLast?_map, Option.map_eq_some_iff] at last
  obtain ⟨own, last, rfl⟩ := last
  split
  · rfl
  · exact Text.isBlank_last_of_strip stripped last

theorem exists_concat {pieces : List Text} (some : pieces ≠ []) :
    ∃ others last, pieces = others ++ [last] :=
  ⟨_, _, (List.dropLast_concat_getLast some).symm⟩

theorem getLast?_join_concat {pieces : List Text} {last : Text} (shown : last ≠ []) :
    (Text.join '/' (pieces ++ [last])).getLast? = last.getLast? := by
  cases pieces with
  | nil => rfl
  | cons piece pieces =>
      rw [getLast?_join_append (by simp) (by simp), Text.join, List.getLast?_cons_of_ne_nil shown]

namespace IsCut

theorem exists_isCut (glob : Text) : ∃ front back, IsCut glob front back := by
  refine ⟨(globSegments glob).takeWhile fun segment => !isWildcardSegment segment,
    (globSegments glob).dropWhile fun segment => !isWildcardSegment segment,
    List.takeWhile_append_dropWhile.symm, fun segment member => ?_, fun segment first => ?_⟩
  · simpa using List.all_eq_true.mp List.all_takeWhile segment member
  · have stop := List.head?_dropWhile_not (fun segment => !isWildcardSegment segment) (globSegments glob)
    rw [Option.mem_def.mp first] at stop
    simpa using stop

variable (cut : IsCut glob front back)

include cut

theorem literalSegments_eq : literalSegments glob = front := by
  rw [literalSegments, cut.segments, List.takeWhile_append_of_pos]
  · cases rest : back with
    | nil => simp
    | cons segment others =>
        have wild := cut.wild segment (by simp [rest])
        simp [wild]
  · exact fun segment member => by simp [cut.literal segment member]

theorem dropWhile_eq :
    (globSegments glob).dropWhile (fun segment => !isWildcardSegment segment) = back := by
  have whole := @List.takeWhile_append_dropWhile _ (fun segment => !isWildcardSegment segment)
    (globSegments glob)
  rw [← literalSegments, cut.literalSegments_eq, cut.segments] at whole
  rw [cut.segments]
  exact List.append_cancel_left whole

theorem residual_eq : residual glob = backText glob back := by
  simp only [residual, cut.dropWhile_eq, backText]

theorem mem_segments {segment : Text} (member : segment ∈ front ∨ segment ∈ back) :
    segment ≠ [] ∧ '/' ∉ segment ∧ '\\' ∉ segment := by
  have held : segment ∈ globSegments glob := by
    rw [cut.segments]
    exact List.mem_append.mpr member
  obtain ⟨inside, some, whole⟩ := mem_globSegments held
  exact ⟨some, whole, fun within => back_notMem_slashed (Text.mem_of_mem_split inside within)⟩

theorem baseOf_eq : baseOf current start glob = frontPath current start glob front := by
  have some : ∀ segment ∈ front, segment ≠ [] := fun segment member =>
    (cut.mem_segments (.inl member)).1
  have whole : ∀ segment ∈ front, '/' ∉ segment := fun segment member =>
    (cut.mem_segments (.inl member)).2.1
  have empty : Text.join '/' front = [] ↔ front = [] := by
    constructor
    · intro none
      cases front with
      | nil => rfl
      | cons segment others =>
          rw [join_cons_eq, List.append_eq_nil_iff] at none
          exact absurd none.1 (some segment (List.mem_cons_self ..))
    · rintro rfl
      rfl
  simp only [baseOf, cut.literalSegments_eq, frontPath, Path.extend_root some whole,
    Path.extend_eq_append some whole, empty]

theorem wild_iff : (∃ segment ∈ globSegments glob, isWildcardSegment segment = true) ↔ back ≠ [] := by
  rw [cut.segments]
  constructor
  · intro found
    obtain ⟨segment, member, wild⟩ := found
    rcases List.mem_append.mp member with inFront | inBack
    · rw [cut.literal segment inFront] at wild
      cases wild
    · exact List.ne_nil_of_mem inBack
  · intro some
    obtain ⟨segment, others, rfl⟩ := List.exists_cons_of_ne_nil some
    exact ⟨segment, by simp, cut.wild segment rfl⟩

/-- The last of the other segments ends where the glob does, a slash aside. -/
theorem getLast?_join_back (some : back ≠ []) (unended : (slashed glob).getLast? ≠ Option.some '/') :
    (Text.join '/' back).getLast? = (slashed glob).getLast? := by
  have joined := Text.join_split '/' (slashed glob)
  obtain ⟨before, last, shape⟩ := exists_concat (Text.split_ne_nil '/' (slashed glob))
  obtain ⟨others, final, rfl⟩ := exists_concat some
  have segments := cut.segments
  rw [globSegments, shape, List.filter_append, ← List.append_assoc] at segments
  rw [shape] at joined
  by_cases empty : last = []
  · -- An empty last segment leaves the slash before it at the end, or no text at all.
    subst empty
    cases before with
    | nil => simp at segments
    | cons piece before =>
        rw [← joined, getLast?_join_append (by simp) (by simp)] at unended
        exact absurd rfl unended
  · rw [List.filter_cons_of_pos (by simpa using empty), List.filter_nil] at segments
    have same := (List.append_inj' segments rfl).2
    rw [← same, getLast?_join_concat empty, ← joined, getLast?_join_concat empty]

theorem back_notMem_backText : '\\' ∉ backText glob back := by
  have joined : '\\' ∉ Text.join '/' back :=
    Text.notMem_join (by decide) fun segment member => (cut.mem_segments (.inr member)).2.2
  unfold backText
  split <;> simp [joined]

theorem head?_backText {segment : Text} (first : segment ∈ back.head?) :
    (backText glob back).head? = segment.head? := by
  obtain ⟨others, rfl⟩ := List.head?_eq_some_iff.mp first
  obtain ⟨some, -, -⟩ := cut.mem_segments (.inr (List.mem_cons_self ..))
  obtain ⟨character, rest, rfl⟩ := List.exists_cons_of_ne_nil some
  rw [backText, join_cons_eq]
  rfl

variable (stripped : glob.strip = glob) (some : back ≠ [])

include stripped some

theorem isBlank_last_backText {character : Char} (last : (backText glob back).getLast? = .some character) :
    Text.isBlank character = false := by
  unfold backText at last
  by_cases ended : (slashed glob).getLast? = .some '/'
  · rw [if_pos ended, List.getLast?_concat] at last
    cases last
    rfl
  · rw [if_neg ended, List.append_nil, cut.getLast?_join_back some ended] at last
    exact isBlank_last_slashed stripped last

/-- Of the blanks around the pattern only those in front are dropped. -/
theorem trimmed_backText :
    trimmed (backText glob back) = Text.trimLeft Text.isBlank (backText glob back) := by
  have ends : Text.trimLeft Text.isBlank (backText glob back) <:+ backText glob back :=
    List.dropWhile_suffix Text.isBlank
  have kept : (backText glob back).strip = Text.trimLeft Text.isBlank (backText glob back) := by
    refine Text.trimRight_eq_self fun character last => ?_
    obtain ⟨before, whole⟩ := ends
    refine cut.isBlank_last_backText stripped some ?_
    rw [← whole, List.getLast?_append, last]
    rfl
  rw [trimmed, kept, slashed_eq_self fun inside => cut.back_notMem_backText (ends.subset inside)]

end IsCut

theorem pattern_of_compile {pattern : Text} {matcher : Matcher} (compiled : Glob.compile pattern = .ok matcher) :
    matcher ≠ .everything ∧ matcher.pattern = trimmed pattern := by
  obtain ⟨-, -, _, _, -, -, rfl⟩ := compile_eq_ok.mp compiled
  exact ⟨by simp, rfl⟩

/-- A compiled matcher is known by its pattern. -/
theorem eq_of_pattern_eq {pattern other : Text} {matcher another : Matcher}
    (compiled : Glob.compile pattern = .ok matcher) (again : Glob.compile other = .ok another)
    (same : matcher.pattern = another.pattern) : matcher = another := by
  rw [(pattern_of_compile compiled).2, (pattern_of_compile again).2] at same
  exact Except.ok.inj (compiled.symm.trans (compile_of_trimmed_eq same again))

section Made

variable (stripped : glob.strip = glob) (cut : IsCut glob front back)
  (made : ofGlob current start glob = .ok located)

theorem ofGlob_of_literal (literal : ¬ ∃ segment ∈ globSegments glob, isWildcardSegment segment = true) :
    ofGlob current start glob = .ok ⟨baseOf current start glob, .everything⟩ := by
  have all : ((globSegments glob).all fun segment => !isWildcardSegment segment) = true := by
    rw [List.all_eq_true]
    intro segment member
    rw [Bool.not_eq_true', ← Bool.not_eq_true]
    exact fun wild => literal ⟨segment, member, wild⟩
  rw [ofGlob, if_pos all]

include cut made

theorem base_eq : located.base = frontPath current start glob front :=
  (base_ofGlob made).trans cut.baseOf_eq

theorem compile_backText (some : back ≠ []) : Glob.compile (backText glob back) = .ok located.matcher := by
  rw [ofGlob_of_wild (cut.wild_iff.mpr some), cut.residual_eq] at made
  obtain ⟨rest, compiled, rfl⟩ := map_eq_ok.mp made
  exact compiled

theorem everything_iff : located.matcher = .everything ↔ back = [] := by
  constructor
  · intro everything
    refine Decidable.byContradiction fun some => ?_
    exact (pattern_of_compile (compile_backText cut made some)).1 everything
  · intro none
    rw [ofGlob_of_literal (by rw [cut.wild_iff]; exact not_not.mpr none)] at made
    cases made
    rfl

include stripped

theorem pattern_eq (some : back ≠ []) :
    located.matcher.pattern = Text.trimLeft Text.isBlank (backText glob back) := by
  rw [(pattern_of_compile (compile_backText cut made some)).2, cut.trimmed_backText stripped some]

/-- What is lost of a glob are blanks at the start of its pattern. -/
theorem keepsAll_iff : KeepsAll current start glob front back located ↔ StartsShown back := by
  constructor
  · intro keeps segment first character starts
    have some : back ≠ [] := List.ne_nil_of_mem (List.mem_of_mem_head? first)
    have same := (pattern_eq stripped cut made some).symm.trans (keeps.pattern some)
    have stop := List.head?_dropWhile_not Text.isBlank (backText glob back)
    rw [← Text.trimLeft, same, cut.head?_backText first, Option.mem_def.mp starts] at stop
    simpa using stop
  · intro shown
    refine ⟨base_eq cut made, everything_iff cut made, fun some => ?_⟩
    obtain ⟨segment, others, shape⟩ := List.exists_cons_of_ne_nil some
    have first : segment ∈ back.head? := by rw [shape]; rfl
    rw [pattern_eq stripped cut made some, Text.trimLeft_eq_self]
    intro character starts
    rw [cut.head?_backText first] at starts
    exact shown segment first character starts

end Made

/-- Matchers are told apart by what is left of the texts they are made of. -/
theorem matcher_eq_iff {other : Text} {inFront behind : List Text} {another : LocatedGlob}
    (stripped : glob.strip = glob) (cut : IsCut glob front back) (made : ofGlob current start glob = .ok located)
    (otherStripped : other.strip = other) (otherCut : IsCut other inFront behind)
    (otherMade : ofGlob current start other = .ok another) (some : back ≠ []) (otherSome : behind ≠ []) :
    located.matcher = another.matcher ↔ Text.trimLeft Text.isBlank (backText glob back) =
      Text.trimLeft Text.isBlank (backText other behind) := by
  rw [← pattern_eq stripped cut made some, ← pattern_eq otherStripped otherCut otherMade otherSome]
  exact ⟨congrArg _, eq_of_pattern_eq (compile_backText cut made some)
    (compile_backText otherCut otherMade otherSome)⟩

end LocatedGlob

namespace BaseGroup

open LocatedGlob

variable {current start : Path} {globs : List Text} {groups : List BaseGroup} {group : BaseGroup}
  {matchers : List Matcher}

theorem strip_of_mem_usableGlobs {glob : Text} (member : glob ∈ usableGlobs globs) :
    glob.strip = glob := by
  obtain ⟨written, -, rfl⟩ := List.mem_map.mp (List.mem_filter.mp member).1
  exact Text.strip_strip

variable (made : ofGlobs current start globs = .ok groups) (member : group ∈ groups)
  (wanted : group.rule = .anyOf matchers)

include made member wanted

/-- The matchers of a group are those of the globs that lead to its directory, each of them once. -/
theorem exists_located :
    matchers.Nodup ∧ .everything ∉ matchers ∧ ∀ matcher, matcher ∈ matchers ↔ ∃ glob ∈ usableGlobs globs,
      ∃ located, ofGlob current start glob = .ok located ∧ located.base = group.base ∧
        located.matcher = matcher := by
  by_cases usable : usableGlobs globs = []
  · simp only [ofGlobs, usable] at made
    cases made
    cases List.mem_singleton.mp member
    cases wanted
  · obtain ⟨located, mapped, rfl⟩ := exists_ofLocated made usable
    obtain ⟨base, -, rfl⟩ := List.mem_map.mp member
    simp only [IncludeRule.ofMatchers] at wanted
    split at wanted
    · cases wanted
    · rename_i partly
      obtain rfl := IncludeRule.anyOf.inj wanted
      refine ⟨nodup_eraseDups _, fun whole => partly (List.mem_eraseDups.mp whole), fun matcher => ?_⟩
      simp only [List.mem_eraseDups, List.mem_map, List.mem_filter, decide_eq_true_eq,
        mem_iff_of_mapM mapped]
      constructor
      · rintro ⟨one, ⟨⟨glob, held, split⟩, same⟩, rfl⟩
        exact ⟨glob, held, one, split, same, rfl⟩
      · rintro ⟨glob, held, one, split, same, rfl⟩
        exact ⟨one, ⟨⟨glob, held, split⟩, same⟩, rfl⟩

theorem nodup_patterns : (matchers.map Matcher.pattern).Nodup := by
  obtain ⟨distinct, -, members⟩ := exists_located made member wanted
  have source : ∀ matcher ∈ matchers, ∃ pattern, Glob.compile pattern = .ok matcher := by
    intro matcher held
    obtain ⟨glob, -, located, split, -, rfl⟩ := (members matcher).mp held
    obtain ⟨front, back, cut⟩ := IsCut.exists_isCut glob
    refine ⟨_, compile_backText cut split fun none => ?_⟩
    rw [(everything_iff cut split).mpr none] at held
    exact (exists_located made member wanted).2.1 held
  refine List.pairwise_map.mpr (distinct.imp_of_mem fun {matcher another} held again different same => ?_)
  obtain ⟨pattern, compiled⟩ := source matcher held
  obtain ⟨other, compiledToo⟩ := source another again
  exact different (eq_of_pattern_eq compiled compiledToo same)

theorem mem_patterns_iff (pattern : Text) :
    pattern ∈ matchers.map Matcher.pattern ↔ ∃ glob ∈ usableGlobs globs, ∃ front back,
      IsCut glob front back ∧ frontPath current start glob front = group.base ∧
        Text.trimLeft Text.isBlank (backText glob back) = pattern := by
  obtain ⟨-, partly, members⟩ := exists_located made member wanted
  have read : ∀ {glob front back located}, glob ∈ usableGlobs globs → IsCut glob front back →
      ofGlob current start glob = .ok located → located.matcher ∈ matchers →
        located.matcher.pattern = Text.trimLeft Text.isBlank (backText glob back) := by
    intro glob front back located usable cut split held
    refine pattern_eq (strip_of_mem_usableGlobs usable) cut split fun none => ?_
    rw [(everything_iff cut split).mpr none] at held
    exact partly held
  rw [List.mem_map]
  constructor
  · intro found
    obtain ⟨matcher, held, rfl⟩ := found
    obtain ⟨glob, usable, located, split, base, rfl⟩ := (members matcher).mp held
    obtain ⟨front, back, cut⟩ := IsCut.exists_isCut glob
    exact ⟨glob, usable, front, back, cut, (base_eq cut split).symm.trans base,
      (read usable cut split held).symm⟩
  · intro found
    obtain ⟨glob, usable, front, back, cut, base, rfl⟩ := found
    obtain ⟨located, split⟩ := exists_ofGlobs_iff.mp ⟨groups, made⟩ glob usable
    have held := (members located.matcher).mpr
      ⟨glob, usable, located, split, (base_eq cut split).trans base, rfl⟩
    exact ⟨located.matcher, held, read usable cut split held⟩

end BaseGroup

namespace LocatedGlob

/-- The directory has the segments in front, all of it is wanted just if there are no others, and the pattern
has the others without the blanks at their start; so all is kept just if there are none. Globs with the same
directory share a matcher just if their patterns are the same then, whatever stands in the globs. -/
theorem loses_blanks_in_front (current start : Path) :
    (∀ glob front back located, glob.strip = glob → IsCut glob front back →
      ofGlob current start glob = .ok located →
        (located.base = frontPath current start glob front ∧
          (located.matcher = .everything ↔ back = []) ∧
            (back ≠ [] → located.matcher.pattern = Text.trimLeft Text.isBlank (backText glob back))) ∧
          (KeepsAll current start glob front back located ↔ StartsShown back) ∧
          ∀ other inFront behind another, other.strip = other → IsCut other inFront behind →
            ofGlob current start other = .ok another → back ≠ [] → behind ≠ [] →
              (located.matcher = another.matcher ↔ Text.trimLeft Text.isBlank (backText glob back) =
                Text.trimLeft Text.isBlank (backText other behind))) ∧
    ∀ globs groups, BaseGroup.ofGlobs current start globs = .ok groups →
      ∀ group ∈ groups, ∀ matchers, group.rule = .anyOf matchers →
        (matchers.map Matcher.pattern).Nodup ∧
          ∀ pattern, pattern ∈ matchers.map Matcher.pattern ↔ ∃ glob ∈ usableGlobs globs, ∃ front back,
            IsCut glob front back ∧ frontPath current start glob front = group.base ∧
              Text.trimLeft Text.isBlank (backText glob back) = pattern := by
  constructor
  · intro glob front back located stripped cut made
    refine ⟨⟨base_eq cut made, everything_iff cut made, pattern_eq stripped cut made⟩,
      keepsAll_iff stripped cut made, ?_⟩
    intro other inFront behind another otherStripped otherCut otherMade
    exact matcher_eq_iff stripped cut made otherStripped otherCut otherMade
  · intro globs groups made group member matchers wanted
    exact ⟨BaseGroup.nodup_patterns made member wanted, BaseGroup.mem_patterns_iff made member wanted⟩

/-- From the root down and up again, with a slash at the end and a blank that does not come first. -/
theorem loses_blanks_in_front_of_none :
    let start : Path := ⟨.root, [['b']], by decide⟩
    let glob : Text := ['\\', 's', '/', '/', '.', '.', '/', '\x7b', '*', ',', ' ', 't', '\x7d', '\\']
    let back : List Text := [['\x7b', '*', ',', ' ', 't', '\x7d']]
    ∃ located, ofGlob .root start glob = .ok located ∧ located.base = .root ∧
      located.matcher.pattern = ['\x7b', '*', ',', ' ', 't', '\x7d', '/'] ∧
        KeepsAll .root start glob [['s'], ['.', '.']] back located := by
  intro start glob back
  have cut : IsCut glob [['s'], ['.', '.']] back := ⟨by decide, by decide, by decide⟩
  have splits : (ofGlob .root start glob).toOption.isSome = true := by decide +kernel
  obtain ⟨located, made⟩ := exists_ok_of_isSome splits
  obtain ⟨⟨base, -, pattern⟩, keeps, -⟩ :=
    (loses_blanks_in_front .root start).1 glob _ back located (by decide) cut made
  refine ⟨located, made, base.trans (by decide), (pattern (by decide)).trans (by decide), keeps.mpr ?_⟩
  intro segment first character starts
  cases first
  cases starts
  rfl

/-- The blank that a wildcard segment starts with is lost, and with it what tells two globs apart. -/
theorem not_keepsAll :
    let start : Path := ⟨.root, [['b']], by decide⟩
    let blank : Text := ['s', '/', ' ', '*']
    let bare : Text := ['s', '/', '*']
    blank.strip = blank ∧ bare.strip = bare ∧ IsCut blank [['s']] [[' ', '*']] ∧ IsCut bare [['s']] [['*']] ∧
      backText blank [[' ', '*']] ≠ backText bare [['*']] ∧
      (∃ located, ofGlob .root start blank = .ok located ∧ located.matcher.pattern = ['*'] ∧
        ¬ KeepsAll .root start blank [['s']] [[' ', '*']] located) ∧
      ∃ base matcher, BaseGroup.ofGlobs .root start [blank, bare] = .ok [⟨base, .anyOf [matcher]⟩] := by
  intro start blank bare
  let base : Path := ⟨.root, [['b'], ['s']], by decide⟩
  let matcher : Matcher := .compiled ['*'] [.covering [.one .inName, .many .inName] .slashFinish]
  have lost : ofGlob .root start blank = .ok ⟨base, matcher⟩ := eq_ok_of_toOption (by decide +kernel)
  have shared : BaseGroup.ofGlobs .root start [blank, bare] = .ok [⟨base, .anyOf [matcher]⟩] :=
    eq_ok_of_toOption (by decide +kernel)
  have cut : IsCut blank [['s']] [[' ', '*']] := ⟨by decide, by decide, by decide⟩
  refine ⟨by decide, by decide, cut, ⟨by decide, by decide, by decide⟩, by decide,
    ⟨_, lost, rfl, fun keeps => ?_⟩, base, matcher, shared⟩
  have same := keeps.pattern (by decide)
  exact absurd same (by decide)

end LocatedGlob

end PathSearch
