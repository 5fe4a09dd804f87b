import PathSearch.Scope.Located
import PathSearch.Proofs.Glob.Cut

/-! The text of a tidy glob is what its literal segments spell, and behind it the residual. -/

namespace PathSearch

open Glob

/-- The segments of a text, a leading slash aside. -/
def namedSegments : Text → List Text
  | '/' :: rest => Text.split '/' rest
  | text => Text.split '/' text

/-- A glob with a wildcard segment. Its segments have no blanks at their ends, and its alternatives have
no segments that show nothing or that paths do without. -/
structure IsTidy (glob : Text) : Prop where
  wild : ∃ segment ∈ globSegments glob, isWildcardSegment segment = true
  stripped : ∀ segment ∈ (slashed glob).split '/', segment.strip = segment
  clean : ∀ globs, alternatives (trimmed glob) = .ok globs → ∀ alternative ∈ globs,
    ∀ segment ∈ namedSegments alternative, IsShown segment ∧ segment ≠ ['.'] ∧ segment ≠ Path.up

theorem namedSegments_of_relative {text : Text} (relative : text.head? ≠ some '/') :
    namedSegments text = Text.split '/' text := by
  unfold namedSegments
  split
  · exact absurd rfl relative
  · rfl

theorem exists_namedSegments_append (before rest : Text) :
    ∃ front, namedSegments (before ++ '/' :: rest) = front ++ Text.split '/' rest := by
  rcases before with _ | ⟨character, before⟩
  · exact ⟨[], rfl⟩
  · by_cases slash : character = '/'
    · subst slash
      exact ⟨_, Text.split_append '/' before rest⟩
    · have relative : (character :: before ++ '/' :: rest).head? ≠ some '/' := by simpa using slash
      rw [namedSegments_of_relative relative]
      exact ⟨_, Text.split_append '/' (character :: before) rest⟩

theorem nil_mem_namedSegments (before : Text) {rest : Text} (empty : [] ∈ Text.split '/' rest) :
    [] ∈ namedSegments (before ++ '/' :: rest) := by
  obtain ⟨front, split⟩ := exists_namedSegments_append before rest
  rw [split]
  exact List.mem_append_right _ empty

/-- Both slashes show. -/
theorem strip_of_strip_slashed {glob : Text} (stripped : (slashed glob).strip = slashed glob) :
    glob.strip = glob := by
  have shows : ∀ character : Char,
      Text.isBlank (if character = '\\' then '/' else character) = false →
        Text.isBlank character = false := by
    intro character shown
    by_cases back : character = '\\'
    · rw [back]
      rfl
    · rwa [if_neg back] at shown
  apply Text.strip_eq_self
  · intro first found
    apply shows
    apply Text.isBlank_head_of_strip stripped
    simp [slashed, Text.replace, found]
  · intro last found
    apply shows
    apply Text.isBlank_last_of_strip stripped
    simp [slashed, Text.replace, found]

theorem head?_below_ne {names : List Text} {first : Char} (found : (below names).head? = some first) :
    first = '/' := by
  by_cases none : names = []
  · subst none
    simp [below_nil] at found
  · rw [below_of_ne_nil none] at found
    exact (Option.some.inj found).symm

/-- Joined by slashes, texts without blanks at their ends have none there either. -/
theorem strip_join {pieces : List Text} (stripped : ∀ piece ∈ pieces, piece.strip = piece) :
    Text.strip (Text.join '/' pieces) = Text.join '/' pieces := by
  apply Text.strip_eq_self
  · intro character found
    rcases pieces with _ | ⟨_ | ⟨start, text⟩, rest⟩
    · simp [Text.join] at found
    · rw [join_cons_eq] at found
      rw [head?_below_ne found]
      rfl
    · rw [join_cons_eq] at found
      exact Text.isBlank_head_of_strip (stripped _ (List.mem_cons_self ..)) found
  · intro character found
    rcases List.eq_nil_or_concat pieces with rfl | ⟨before, last, rfl⟩
    · simp [Text.join] at found
    · rw [List.concat_eq_append] at found stripped
      have kept := stripped last (by simp)
      by_cases none : before = []
      · subst none
        exact Text.isBlank_last_of_strip kept found
      · rw [getLast?_join_append none (by simp), List.getLast?_cons, Option.some.injEq] at found
        cases ends : last.getLast? with
        | none =>
            rw [← found]
            simp [Text.join, ends, Text.isBlank]
        | some final =>
            have same : final = character := by simpa [Text.join, ends] using found
            exact Text.isBlank_last_of_strip kept (same ▸ ends)

theorem strip_of_segments {text : Text}
    (stripped : ∀ segment ∈ text.split '/', segment.strip = segment) : text.strip = text := by
  have whole := strip_join stripped
  rwa [Text.join_split] at whole

/-- A text without slashes in a row or at its end comes apart into a leading slash and its segments. -/
theorem eq_join_segments {text : Text} (apart : ¬ ['/', '/'] <:+: text)
    (unended : text.getLast? ≠ some '/') (nonempty : text ≠ []) :
    text = leadText (['/'].isPrefixOf text) ++
      Text.join '/' ((text.split '/').filter fun segment => segment ≠ []) := by
  have filtered : ∀ pieces : List Text, [] ∉ pieces →
      pieces.filter (fun segment => segment ≠ []) = pieces := by
    intro pieces named
    rw [List.filter_eq_self]
    intro segment member
    exact decide_eq_true fun none => named (none ▸ member)
  by_cases absolute : ∃ own, text = '/' :: own
  · obtain ⟨own, rfl⟩ := absolute
    have some : own ≠ [] := by
      intro none
      simp [none] at unended
    have named : [] ∉ Text.split '/' own := by
      apply Text.nil_notMem_split some
      · intro first
        obtain ⟨rest, rfl⟩ := List.head?_eq_some_iff.mp first
        exact apart ⟨[], rest, rfl⟩
      · rwa [List.getLast?_cons_of_ne_nil some] at unended
      · exact fun inside => apart (List.infix_cons inside)
    have pieces : Text.split '/' ('/' :: own) = [] :: Text.split '/' own := rfl
    have front : ['/'].isPrefixOf ('/' :: own) = true := rfl
    rw [front, pieces, List.filter_cons_of_neg (by simp), filtered _ named, Text.join_split]
    rfl
  · have relative : text.head? ≠ some '/' := by
      intro first
      obtain ⟨rest, rfl⟩ := List.head?_eq_some_iff.mp first
      exact absolute ⟨rest, rfl⟩
    have front : ['/'].isPrefixOf text = false := by
      rw [← Bool.not_eq_true, List.isPrefixOf_iff_prefix]
      intro starts
      obtain ⟨own, rfl⟩ := starts
      exact absolute ⟨own, rfl⟩
    have named := Text.nil_notMem_split nonempty relative unended apart
    rw [front, filtered _ named, Text.join_split]
    rfl

theorem mem_globSegments {glob segment : Text} (member : segment ∈ globSegments glob) :
    segment ∈ (slashed glob).split '/' ∧ segment ≠ [] ∧ '/' ∉ segment := by
  obtain ⟨held, some⟩ := List.mem_filter.mp member
  exact ⟨held, by simpa using some, Text.separator_notMem_of_mem_split held⟩

theorem isLiteral_of_mem_literalSegments {glob segment : Text}
    (member : segment ∈ LocatedGlob.literalSegments glob) : IsLiteral segment := by
  have passed := @List.all_takeWhile _ (fun segment => !isWildcardSegment segment) (globSegments glob)
  rw [List.all_eq_true] at passed
  have plain := passed segment member
  obtain ⟨-, some, clear⟩ := mem_globSegments (List.takeWhile_subset _ member)
  have absent : ∀ character ∈ segment, isWildcardSegment [character] = false := by
    simpa [isWildcardSegment] using plain
  refine ⟨some, clear, ?_, ?_, ?_, ?_, ?_⟩
  all_goals
    intro inside
    have other := absent _ inside
    simp [isWildcardSegment] at other

namespace IsTidy

variable {glob : Text} (tidy : IsTidy glob)

include tidy

theorem strip_slashed : (slashed glob).strip = slashed glob := strip_of_segments tidy.stripped

theorem trimmed_eq : trimmed glob = slashed glob := by
  rw [trimmed, strip_of_strip_slashed tidy.strip_slashed]

theorem slashed_ne_nil : slashed glob ≠ [] := by
  intro none
  obtain ⟨segment, member, -⟩ := tidy.wild
  simp [globSegments, none, Text.split] at member

theorem wild_ne_nil : (globSegments glob).dropWhile (fun segment => !isWildcardSegment segment) ≠ [] := by
  obtain ⟨segment, member, wild⟩ := tidy.wild
  exact Text.dropWhile_ne_nil member (by simp [wild])

section Split

variable {globs : List Text} (split : alternatives (trimmed glob) = .ok globs)

include split

theorem slashes_notInfix : ¬ ['/', '/'] <:+: slashed glob := by
  intro inside
  rw [← tidy.trimmed_eq] at inside
  obtain ⟨alternative, member, before, after, rfl⟩ := exists_alternative_of_slashes split inside
  have empty : [] ∈ namedSegments (before ++ '/' :: '/' :: after) :=
    nil_mem_namedSegments before (by simp [Text.split])
  rw [List.append_assoc] at member
  exact (tidy.clean globs split _ member [] empty).1.ne_nil rfl

theorem getLast?_slashed : (slashed glob).getLast? ≠ some '/' := by
  intro ended
  obtain ⟨start, shape⟩ := List.getLast?_eq_some_iff.mp ended
  rw [tidy.trimmed_eq, shape] at split
  obtain ⟨before, member⟩ := exists_alternative_of_ended split
  rw [← shape, ← tidy.trimmed_eq] at split
  have empty : [] ∈ namedSegments (before ++ '/' :: []) :=
    nil_mem_namedSegments before (by simp [Text.split])
  exact (tidy.clean globs split _ member [] empty).1.ne_nil rfl

/-- The text without its leading slash is split into the segments of the glob. -/
theorem slashed_eq :
    slashed glob = leadText (isAbsoluteGlob glob) ++ Text.join '/' (globSegments glob) :=
  eq_join_segments (tidy.slashes_notInfix split) (tidy.getLast?_slashed split) tidy.slashed_ne_nil

theorem residual_eq : LocatedGlob.residual glob =
    Text.join '/' ((globSegments glob).dropWhile fun segment => !isWildcardSegment segment) := by
  rw [LocatedGlob.residual, if_neg (tidy.getLast?_slashed split), List.append_nil]

/-- The literal segments and the residual make up the glob. -/
theorem shape :
    trimmed glob = frontText (isAbsoluteGlob glob) (LocatedGlob.literalSegments glob) ++
      LocatedGlob.residual glob := by
  rw [tidy.trimmed_eq, tidy.residual_eq split, frontText, List.append_assoc,
    flatMap_append_join _ tidy.wild_ne_nil, LocatedGlob.literalSegments,
    List.takeWhile_append_dropWhile]
  exact tidy.slashed_eq split

theorem residual_ne_nil : LocatedGlob.residual glob ≠ [] := by
  rw [tidy.residual_eq split]
  obtain ⟨first, rest, shape⟩ := List.exists_cons_of_ne_nil tidy.wild_ne_nil
  have held : first ∈ globSegments glob :=
    List.dropWhile_subset (fun segment => !isWildcardSegment segment) (by rw [shape]; simp)
  rw [shape, join_cons_eq]
  intro none
  exact (mem_globSegments held).2.1 (List.append_eq_nil_iff.mp none).1

theorem trimmed_residual : trimmed (LocatedGlob.residual glob) = LocatedGlob.residual glob := by
  have inside : ∀ segment ∈ (globSegments glob).dropWhile (fun segment => !isWildcardSegment segment),
      segment ∈ (slashed glob).split '/' := fun segment member =>
    (mem_globSegments (List.dropWhile_subset _ member)).1
  have stripped := strip_join fun segment member => tidy.stripped segment (inside segment member)
  have unslashed : '\\' ∉ LocatedGlob.residual glob := by
    rw [tidy.residual_eq split]
    refine Text.notMem_join (by decide) ?_
    intro segment held within
    exact back_notMem_slashed (Text.mem_of_mem_split (inside segment held) within)
  rw [trimmed, tidy.residual_eq split, stripped, ← tidy.residual_eq split, slashed_eq_self unslashed]

end Split

end IsTidy

theorem namedSegments_frontText {slash : Bool} {start : List Text} {inner : Text}
    (literal : ∀ segment ∈ start, IsLiteral segment) (front : slash = true ∨ start ≠ []) :
    namedSegments (frontText slash start ++ inner) = start ++ inner.split '/' := by
  have split := @split_frontText slash start inner literal
  cases slash with
  | true => exact (List.cons.inj split).2
  | false =>
      obtain ⟨first, rest, rfl⟩ :=
        List.exists_cons_of_ne_nil (front.resolve_left Bool.false_ne_true)
      have named := literal first (List.mem_cons_self ..)
      obtain ⟨character, name, rfl⟩ := List.exists_cons_of_ne_nil named.some
      rw [namedSegments_of_relative, split]
      · rfl
      · intro same
        have slash : character = '/' := by simpa [frontText, leadText] using same
        exact named.clear (slash ▸ List.mem_cons_self ..)

end PathSearch
