import PathSearch.Proofs.Glob.Covering
import PathSearch.Proofs.Glob.Spread

/-! The pieces of a single segment cover what the segment reads. -/

namespace PathSearch.Glob

namespace Wild

variable {glob text : Text}

theorem empty_iff : Wild [] text ↔ text = [] := by
  constructor
  · intro wild
    cases wild
    rfl
  · intro same
    subst same
    exact .empty

theorem run_iff (single : crosses ('*' :: glob) = false) :
    Wild ('*' :: glob) text ↔
      ∃ inside ending, text = inside ++ ending ∧ '/' ∉ inside ∧ Wild glob ending := by
  constructor
  · intro wild
    cases wild with
    | @crossing rest =>
        have two : crosses ('*' :: '*' :: rest) = true := crosses_iff.mpr ⟨[], rest, rfl⟩
        simp [single] at two
    | run clear later => exact ⟨_, _, rfl, clear, later⟩
    | literal plain => exact absurd rfl plain.1
  · intro found
    obtain ⟨inside, ending, rfl, clear, later⟩ := found
    exact later.run clear

theorem single_iff :
    Wild ('?' :: glob) text ↔
      ∃ character ending, text = character :: ending ∧ character ≠ '/' ∧ Wild glob ending := by
  constructor
  · intro wild
    cases wild with
    | single clear later => exact ⟨_, _, rfl, clear, later⟩
    | literal plain => exact absurd rfl plain.2
  · intro found
    obtain ⟨character, ending, rfl, clear, later⟩ := found
    exact later.single clear

theorem literal_iff {character : Char} (star : character ≠ '*') (mark : character ≠ '?') :
    Wild (character :: glob) text ↔ ∃ ending, text = character :: ending ∧ Wild glob ending := by
  constructor
  · intro wild
    cases wild with
    | crossing => exact absurd rfl star
    | run => exact absurd rfl star
    | single => exact absurd rfl mark
    | literal _ later => exact ⟨_, rfl, later⟩
  · intro found
    obtain ⟨ending, rfl, later⟩ := found
    exact later.literal ⟨star, mark⟩

end Wild

theorem crosses_of_cons {character : Char} {rest : Text}
    (single : crosses (character :: rest) = false) : crosses rest = false := by
  simp only [crosses, Text.occursIn, Bool.or_eq_false_iff] at single
  exact single.2

namespace Piece

theorem rowCovers_many {pieces : List Piece} {text : Text} :
    RowCovers (.many .inName :: pieces) text ↔
      ∃ inside ending, text = inside ++ ending ∧ '/' ∉ inside ∧ RowCovers pieces ending := by
  have clear : ∀ inside : Text, (∀ character ∈ inside, CharSet.inName.has character = true) ↔
      '/' ∉ inside := by
    intro inside
    simp only [CharSet.has, bne_iff_ne]
    exact ⟨fun all member => all '/' member rfl, fun absent _ member same => absent (same ▸ member)⟩
  simp only [RowCovers, Covers, clear]

theorem rowCovers_one {set : CharSet} {pieces : List Piece} {text : Text} :
    RowCovers (.one set :: pieces) text ↔
      ∃ character ending, text = character :: ending ∧ set.has character = true ∧
        RowCovers pieces ending := by
  constructor
  · intro found
    obtain ⟨_, ending, rfl, ⟨character, held, rfl⟩, covers⟩ := found
    exact ⟨character, ending, rfl, held, covers⟩
  · intro found
    obtain ⟨character, ending, rfl, held, covers⟩ := found
    exact ⟨[character], ending, rfl, ⟨character, held, rfl⟩, covers⟩

end Piece

/-- A segment without classes and without two stars in a row has pieces, and they cover what it reads. -/
theorem exists_segmentPieces? {segment : Text} (plain : '[' ∉ segment)
    (single : crosses segment = false) :
    ∃ pieces, segmentPieces? segment = some pieces ∧
      ∀ text, Piece.RowCovers pieces text ↔ Wild segment text := by
  induction segment with
  | nil => exact ⟨[], by rw [segmentPieces?], fun text => Wild.empty_iff.symm⟩
  | cons character rest ih =>
      simp only [List.mem_cons, not_or] at plain
      obtain ⟨pieces, made, covers⟩ := ih plain.2 (crosses_of_cons single)
      rw [segmentPieces?]
      by_cases star : character = '*'
      · subst star
        refine ⟨.many .inName :: pieces, by rw [if_pos rfl, made]; rfl, ?_⟩
        intro text
        simp only [Piece.rowCovers_many, Wild.run_iff single, covers]
      · rw [if_neg star]
        by_cases mark : character = '?'
        · subst mark
          refine ⟨.one .inName :: pieces, by rw [if_pos rfl, made]; rfl, ?_⟩
          intro text
          simp only [Piece.rowCovers_one, Wild.single_iff, covers, CharSet.has, bne_iff_ne]
        · rw [if_neg mark, if_neg (Ne.symm plain.1)]
          refine ⟨.one (.only character) :: pieces, by rw [made]; rfl, ?_⟩
          intro text
          simp only [Piece.rowCovers_one, Wild.literal_iff star mark, covers, CharSet.has, beq_iff_eq]
          constructor
          · intro found
            obtain ⟨_, ending, rfl, rfl, wild⟩ := found
            exact ⟨ending, rfl, wild⟩
          · intro found
            obtain ⟨ending, rfl, wild⟩ := found
            exact ⟨character, ending, rfl, rfl, wild⟩

theorem Wild.ne_nil {segment text : Text} (some : segment ≠ []) (named : segment ≠ star)
    (single : crosses segment = false) (wild : Wild segment text) : text ≠ [] := by
  intro none
  rcases segment with _ | ⟨first, rest⟩
  · exact some rfl
  · subst none
    generalize shape : ([] : Text) = text at wild
    cases wild with
    | @crossing rest =>
        have two : crosses ('*' :: '*' :: rest) = true := crosses_iff.mpr ⟨[], rest, rfl⟩
        simp [single] at two
    | @run _ _ inside clear later =>
        obtain ⟨rfl, rfl⟩ := List.append_eq_nil_iff.mp shape.symm
        -- Behind a star, nothing is read only by another star, and the two would be in a row.
        generalize bare : ([] : Text) = text at later
        cases later with
        | empty => exact named rfl
        | @crossing rest =>
            have two : crosses ('*' :: '*' :: '*' :: rest) = true :=
              crosses_iff.mpr ⟨[], '*' :: rest, rfl⟩
            simp [single] at two
        | @run rest =>
            have two : crosses ('*' :: '*' :: rest) = true := crosses_iff.mpr ⟨[], rest, rfl⟩
            simp [single] at two
        | single => cases bare
        | literal => cases bare
    | single => cases shape
    | literal => cases shape

/-- A segment as it is once two stars in a row have been taken apart. -/
structure IsSimple (segment : Text) : Prop where
  some : segment ≠ []
  clear : '/' ∉ segment
  plain : '[' ∉ segment
  single : segment = globstar ∨ crosses segment = false

theorem isSimple_globstar : IsSimple globstar := ⟨by decide, by decide, by decide, .inl rfl⟩

theorem IsSimple.single_of_ne {segment : Text} (simple : IsSimple segment)
    (other : segment ≠ globstar) : crosses segment = false :=
  simple.single.resolve_left other

/-- The pieces of a segment in front of others cover what the segment reads, and never nothing. -/
theorem exists_namePieces? {segment : Text} (simple : IsSimple segment) (other : segment ≠ globstar) :
    ∃ pieces, namePieces? segment = some pieces ∧
      ∀ text, Piece.RowCovers pieces text ↔ text ≠ [] ∧ Wild segment text := by
  by_cases named : segment = star
  · subst named
    refine ⟨wholeName, rfl, ?_⟩
    intro text
    have read : Wild star text ↔ '/' ∉ text := by
      refine ⟨Wild.slash_notMem_of_star, fun clear => ?_⟩
      have run : Wild star (text ++ []) := Wild.empty.run clear
      rwa [List.append_nil] at run
    rw [Piece.rowCovers_wholeName, read]
  · obtain ⟨pieces, made, covers⟩ :=
      exists_segmentPieces? simple.plain (simple.single_of_ne other)
    refine ⟨pieces, by rw [namePieces?, if_neg named, made], ?_⟩
    intro text
    rw [covers]
    exact ⟨fun wild => ⟨wild.ne_nil simple.some named (simple.single_of_ne other), wild⟩, And.right⟩

/-- The text is in one line and does not end in a slash. -/
structure IsClosed (text : Text) : Prop where
  inLine : '\n' ∉ text
  closed : ∀ before, text ≠ before ++ ['/']

theorem IsClosed.eq_nil_of_isOver {before rest : Text} (closed : IsClosed (before ++ rest))
    (finished : isOver rest = true) : rest = [] := by
  simp only [isOver, Bool.or_eq_true, beq_iff_eq] at finished
  rcases finished with rfl | rfl
  · rfl
  · exact absurd (by simp) closed.inLine

theorem IsClosed.eq_nil_of_slashFinish {before rest : Text} (closed : IsClosed (before ++ rest))
    (finished : Ending.slashFinish.accepts rest = true) : rest = [] := by
  simp only [Ending.accepts, Bool.or_eq_true] at finished
  rcases finished with finished | finished
  · exact closed.eq_nil_of_isOver finished
  · cases rest with
    | nil => rfl
    | cons character rest =>
        simp only [Bool.and_eq_true, beq_iff_eq] at finished
        obtain ⟨rfl, last⟩ := finished
        have shape : before ++ '/' :: rest = (before ++ ['/']) ++ rest := by simp
        rw [shape] at closed
        obtain rfl := closed.eq_nil_of_isOver last
        exact absurd (by simp) (closed.closed before)

theorem fits_single {segment text : Text} (simple : IsSimple segment) (other : segment ≠ globstar)
    (closed : IsClosed text) {slash : Bool} :
    Fits (coveringFrom? slash [segment]) text ↔
      ∃ name, text = leadText slash ++ name ∧ name ≠ [] ∧ Wild segment name := by
  obtain ⟨pieces, made, covers⟩ := exists_namePieces? simple other
  by_cases named : segment = star
  · subst named
    simp only [namePieces?, if_true, Option.some.injEq] at made
    subst made
    rw [fits_last_star]
    constructor
    · intro given
      obtain ⟨name, beyond, rfl, some, clear, finished⟩ := given
      obtain rfl := closed.eq_nil_of_slashFinish finished
      exact ⟨name, by simp, (covers name).mp (Piece.rowCovers_wholeName.mpr ⟨some, clear⟩)⟩
    · intro given
      obtain ⟨name, rfl, held⟩ := given
      obtain ⟨some, clear⟩ := Piece.rowCovers_wholeName.mp ((covers name).mpr held)
      exact ⟨name, [], by simp, some, clear, rfl⟩
  · rw [fits_last other named]
    rw [namePieces?, if_neg named] at made
    constructor
    · intro given
      obtain ⟨_, name, beyond, found, rfl, held, finished⟩ := given
      rw [made, Option.some.injEq] at found
      subst found
      obtain rfl := closed.eq_nil_of_isOver finished
      exact ⟨name, by simp, (covers name).mp held⟩
    · intro given
      obtain ⟨name, rfl, held⟩ := given
      exact ⟨pieces, name, [], made, by simp, (covers name).mpr held, rfl⟩

theorem fits_simple {segment next text : Text} {rest : List Text} (simple : IsSimple segment)
    (other : segment ≠ globstar) {slash : Bool} :
    Fits (coveringFrom? slash (segment :: next :: rest)) text ↔
      ∃ name beyond, text = leadText slash ++ name ++ beyond ∧ (name ≠ [] ∧ Wild segment name) ∧
        Fits (coveringFrom? true (next :: rest)) beyond := by
  obtain ⟨pieces, made, covers⟩ := exists_namePieces? simple other
  rw [fits_segment other]
  constructor
  · intro given
    obtain ⟨_, name, beyond, found, rfl, held, fits⟩ := given
    rw [made, Option.some.injEq] at found
    subst found
    exact ⟨name, beyond, rfl, (covers name).mp held, fits⟩
  · intro given
    obtain ⟨name, beyond, rfl, held, fits⟩ := given
    exact ⟨pieces, name, beyond, made, rfl, (covers name).mpr held, fits⟩

end PathSearch.Glob
