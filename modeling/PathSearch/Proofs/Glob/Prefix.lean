import PathSearch.Proofs.Glob.Expanded
import PathSearch.Proofs.Glob.Legible

/-! Segments that stand for themselves, in front of others, take their own names off a path and no more. -/

namespace PathSearch.Glob

structure IsLiteral (segment : Text) : Prop where
  some : segment ≠ []
  clear : '/' ∉ segment
  starless : '*' ∉ segment
  markless : '?' ∉ segment
  plain : '[' ∉ segment
  opened : '\x7b' ∉ segment
  closed : '\x7d' ∉ segment

namespace IsLiteral

variable {segment text : Text} (literal : IsLiteral segment)

include literal

theorem ne_globstar : segment ≠ globstar := by
  intro same
  exact literal.starless (by simp [same, globstar])

theorem crosses_eq_false : crosses segment = false := by
  rw [← Bool.not_eq_true, crosses_iff]
  intro found
  obtain ⟨before, after, shape⟩ := found
  exact literal.starless (by simp [shape])

theorem isSimple : IsSimple segment :=
  ⟨literal.some, literal.clear, literal.plain, .inr literal.crosses_eq_false⟩

omit literal in
theorem wild_iff (starless : '*' ∉ segment) (markless : '?' ∉ segment) :
    Wild segment text ↔ text = segment := by
  induction segment generalizing text with
  | nil => exact Wild.empty_iff
  | cons character rest ih =>
      simp only [List.mem_cons, not_or] at starless markless
      rw [Wild.literal_iff (Ne.symm starless.1) (Ne.symm markless.1)]
      simp only [ih starless.2 markless.2]
      constructor
      · intro found
        obtain ⟨_, rfl, rfl⟩ := found
        rfl
      · intro same
        exact ⟨rest, same, rfl⟩

theorem fits_iff {slash : Bool} {next : Text} {rest : List Text} :
    Fits (coveringFrom? slash (segment :: next :: rest)) text ↔
      ∃ beyond, text = leadText slash ++ segment ++ beyond ∧
        Fits (coveringFrom? true (next :: rest)) beyond := by
  rw [fits_simple literal.isSimple literal.ne_globstar]
  simp only [wild_iff literal.starless literal.markless]
  constructor
  · intro found
    obtain ⟨_, beyond, rfl, ⟨-, rfl⟩, fits⟩ := found
    exact ⟨beyond, rfl, fits⟩
  · intro found
    obtain ⟨beyond, rfl, fits⟩ := found
    exact ⟨segment, beyond, rfl, ⟨literal.some, rfl⟩, fits⟩

end IsLiteral

section Literals

variable {start : List Text} (literal : ∀ segment ∈ start, IsLiteral segment)

include literal

theorem mem_spreadAll_literals {chosen : List Text} : chosen ∈ spreadAll start ↔ chosen = start := by
  rw [spreadAll_eq_of_single fun segment member => (literal segment member).crosses_eq_false,
    List.mem_singleton]

theorem fits_literals {slash : Bool} {rest : List Text} {text : Text} (some : start ≠ [])
    (more : rest ≠ []) :
    Fits (coveringFrom? slash (start ++ rest)) text ↔
      ∃ beyond, text = leadText slash ++ Text.join '/' start ++ beyond ∧
        Fits (coveringFrom? true rest) beyond := by
  induction start generalizing slash text with
  | nil => exact absurd rfl some
  | cons segment start ih =>
      have first := literal segment (List.mem_cons_self ..)
      cases start with
      | nil =>
          obtain ⟨next, others, rfl⟩ := List.exists_cons_of_ne_nil more
          exact first.fits_iff
      | cons following start =>
          have inner := fun text => @ih (fun other member =>
            literal other (List.mem_cons_of_mem _ member)) true text (by simp)
          rw [List.cons_append] at inner ⊢
          rw [List.cons_append, first.fits_iff]
          simp only [inner, Text.join_cons '/' segment (List.cons_ne_nil following start)]
          constructor
          · intro found
            obtain ⟨_, rfl, beyond, rfl, fits⟩ := found
            exact ⟨beyond, by simp [leadText_true], fits⟩
          · intro found
            obtain ⟨beyond, rfl, fits⟩ := found
            refine ⟨'/' :: (Text.join '/' (following :: start) ++ beyond), by simp, beyond, ?_, fits⟩
            simp [leadText_true]

end Literals

/-- A segment in which two stars in a row stand alone or not at all. -/
structure IsApart (segment : Text) : Prop where
  some : segment ≠ []
  single : segment = globstar ∨ crosses segment = false

theorem exists_one_of_segmentPieces? {character : Char} {rest : Text} {pieces : List Piece}
    (plain : character ≠ '*') (made : segmentPieces? (character :: rest) = some pieces) :
    ∃ set others, pieces = .one set :: others := by
  rw [segmentPieces?, if_neg plain] at made
  by_cases mark : character = '?'
  · rw [if_pos mark] at made
    obtain ⟨others, -, rfl⟩ := Option.map_eq_some_iff.mp made
    exact ⟨_, _, rfl⟩
  · rw [if_neg mark] at made
    by_cases opens : character = '['
    · rw [if_pos opens] at made
      split at made
      · obtain ⟨others, -, rfl⟩ := Option.map_eq_some_iff.mp made
        exact ⟨_, _, rfl⟩
      · split at made
        · cases made
          exact ⟨_, _, rfl⟩
        · cases made
    · rw [if_neg opens] at made
      obtain ⟨others, -, rfl⟩ := Option.map_eq_some_iff.mp made
      exact ⟨_, _, rfl⟩

theorem Piece.not_rowCovers_one_nil {set : CharSet} {pieces : List Piece} :
    ¬ RowCovers (.one set :: pieces) [] := by
  rw [rowCovers_one]
  simp

/-- Only a star on its own could cover an empty name, and it has pieces of its own. -/
theorem IsApart.not_rowCovers_nil {segment : Text} {pieces : List Piece} (apart : IsApart segment)
    (other : segment ≠ globstar) (named : segment ≠ star)
    (made : segmentPieces? segment = Option.some pieces) : ¬ Piece.RowCovers pieces [] := by
  have single := apart.single.resolve_left other
  rcases segment with _ | ⟨character, rest⟩
  · exact absurd rfl apart.some
  · by_cases star : character = '*'
    · subst star
      rw [segmentPieces?, if_pos rfl] at made
      obtain ⟨inner, held, rfl⟩ := Option.map_eq_some_iff.mp made
      rcases rest with _ | ⟨next, rest⟩
      · exact absurd rfl named
      · have plain : next ≠ '*' := by
          intro same
          subst same
          have two : crosses ('*' :: '*' :: rest) = true := crosses_iff.mpr ⟨[], rest, rfl⟩
          simp [single] at two
        obtain ⟨set, others, rfl⟩ := exists_one_of_segmentPieces? plain held
        rw [Piece.rowCovers_many]
        intro covers
        obtain ⟨inside, ending, same, -, covers⟩ := covers
        obtain ⟨-, rfl⟩ := List.append_eq_nil_iff.mp same.symm
        exact Piece.not_rowCovers_one_nil covers
    · obtain ⟨set, others, rfl⟩ := exists_one_of_segmentPieces? star made
      exact Piece.not_rowCovers_one_nil

theorem IsApart.not_fits_nil {segment : Text} {rest : List Text} (apart : IsApart segment)
    (other : segment ≠ globstar) : ¬ Fits (coveringFrom? false (segment :: rest)) [] := by
  intro fits
  cases rest with
  | nil =>
      by_cases named : segment = star
      · subst named
        obtain ⟨name, beyond, same, some, -⟩ := fits_last_star.mp fits
        exact some (List.append_eq_nil_iff.mp same.symm).1
      · obtain ⟨pieces, name, beyond, made, same, covers, -⟩ := (fits_last other named).mp fits
        obtain rfl : name = [] := (List.append_eq_nil_iff.mp same.symm).1
        exact apart.not_rowCovers_nil other named made covers
  | cons next rest =>
      obtain ⟨pieces, name, beyond, made, same, covers, -⟩ := (fits_segment other).mp fits
      obtain rfl : name = [] := (List.append_eq_nil_iff.mp same.symm).1
      by_cases named : segment = star
      · subst named
        cases made
        exact (Piece.rowCovers_wholeName.mp covers).1 rfl
      · rw [namePieces?, if_neg named] at made
        exact apart.not_rowCovers_nil other named made covers

section Merged

variable {segments : List Text} (nonempty : segments ≠ [])
  (more : mergeGlobstars segments ≠ [globstar])

include nonempty more

/-- What remains after merging: a first segment, or a globstar and what comes after it. -/
theorem mergeGlobstars_cases :
    (∃ first rest, mergeGlobstars segments = first :: rest ∧ first ≠ globstar) ∨
      ∃ next rest, mergeGlobstars segments = globstar :: next :: rest ∧ next ≠ globstar := by
  obtain ⟨first, rest, shape⟩ := List.exists_cons_of_ne_nil (mt mergeGlobstars_eq_nil.mp nonempty)
  by_cases across : first = globstar
  · subst across
    obtain ⟨next, rest, rfl⟩ : ∃ next others, rest = next :: others :=
      List.exists_cons_of_ne_nil fun none => more (by rw [shape, none])
    exact .inr ⟨next, rest, shape, ne_globstar_of_mergeGlobstars shape⟩
  · exact .inl ⟨first, rest, shape, across⟩

/-- Behind a slash or at the start of a path: the same texts fit. -/
theorem fits_slash_mergeGlobstars {text : Text} :
    Fits (coveringFrom? true (mergeGlobstars segments)) ('/' :: text) ↔
      Fits (covering? (mergeGlobstars segments)) text := by
  rcases mergeGlobstars_cases nonempty more with ⟨first, rest, shape, other⟩ | ⟨next, rest, shape, other⟩
  · rw [shape, covering?_of_ne other, fits_slash other]
  · rw [shape, fits_above, fits_globstar]
    constructor
    · intro found
      obtain ⟨crossed, beyond, same, covers, fits⟩ := found
      obtain ⟨left, rfl⟩ := exists_slash_of_fits (by simp) fits
      rw [fits_slash other] at fits
      rcases covers with rfl | ⟨names, some, inLine, rfl⟩
      · cases same
        exact ⟨[], text, rfl, .inl rfl, fits⟩
      · simp only [List.cons_append, List.cons.injEq, true_and] at same
        exact ⟨names ++ ['/'], left, by simp [same], .inr ⟨names, some, inLine, rfl⟩, fits⟩
    · intro found
      obtain ⟨crossed, beyond, same, covers, fits⟩ := found
      rw [← fits_slash other] at fits
      rcases covers with rfl | ⟨names, some, inLine, rfl⟩
      · exact ⟨[], '/' :: beyond, by simp [same], .inl rfl, fits⟩
      · exact ⟨'/' :: names, '/' :: beyond, by simp [same], .inr ⟨names, some, inLine, rfl⟩, fits⟩

theorem not_fits_mergeGlobstars_nil (apart : ∀ segment ∈ segments, IsApart segment) :
    ¬ Fits (covering? (mergeGlobstars segments)) [] := by
  have merged := fun segment member => apart segment (mem_of_mem_mergeGlobstars member)
  rcases mergeGlobstars_cases nonempty more with ⟨first, rest, shape, other⟩ | ⟨next, rest, shape, other⟩
  · rw [shape] at merged
    rw [shape, covering?_of_ne other]
    exact (merged first (List.mem_cons_self ..)).not_fits_nil other
  · rw [shape] at merged
    rw [shape, fits_above]
    intro found
    obtain ⟨crossed, beyond, same, -, fits⟩ := found
    obtain ⟨-, rfl⟩ := List.append_eq_nil_iff.mp same.symm
    exact (merged next (by simp)).not_fits_nil other fits

end Merged

/-- What a directory is asked to hold is never a single name. -/
theorem not_fits_formOf?_name {glob name : Text} {segments : List Text}
    (line : lineSegments (anchoredLine glob) = (segments ++ [globstar], true)) (plain : IsPlainName name) :
    ¬ Fits (formOf? glob) name := by
  have names : ∀ one ∈ [name], IsPlainName one := by simpa using plain
  intro fits
  by_cases alone : mergeGlobstars (segments ++ [globstar]) = [globstar]
  · simp only [formOf?, line, if_pos alone, if_true, fits_some] at fits
    have two := (nested_accepts_join names).mp fits
    simp at two
  · have last := getLast?_mergeGlobstars (segments ++ [globstar])
    rw [List.getLast?_concat] at last
    have fits := (fits_formOf?_of_ne line names alone).mp fits
    have inside : '/' ∈ name := by
      rcases mergeGlobstars_cases (by simp) alone with
        ⟨first, rest, shape, other⟩ | ⟨next, rest, shape, other⟩
      · rw [shape, covering?_of_ne other] at fits
        rw [shape] at last
        rcases rest with _ | ⟨second, rest⟩
        · exact absurd (Option.some.inj last) other
        · exact slash_mem_of_fits other fits
      · rw [shape, fits_above] at fits
        obtain ⟨crossed, beyond, same, -, fits⟩ := fits
        rw [shape] at last
        rcases rest with _ | ⟨second, rest⟩
        · exact absurd (Option.some.inj last) other
        · have held := slash_mem_of_fits other fits
          have same : name = crossed ++ beyond := same
          rw [same]
          exact List.mem_append_right _ held
    exact plain.clear inside

section Prefixed

variable {whole part : Text} {start rest names : List Text} {isDirectory : Bool}
  (lineWhole : lineSegments (anchoredLine whole) = (start ++ rest, isDirectory))
  (linePart : lineSegments (anchoredLine part) = (rest, isDirectory))
  (literal : ∀ segment ∈ start, IsLiteral segment) (nonempty : rest ≠ [])

include lineWhole literal in
theorem formOf?_eq_of_prefixed (some : start ≠ []) :
    formOf? whole = coveringFrom? false (start ++ mergeGlobstars rest) := by
  obtain ⟨first, others, rfl⟩ := List.exists_cons_of_ne_nil some
  have other := (literal first (List.mem_cons_self ..)).ne_globstar
  simp only [formOf?, lineWhole,
    mergeGlobstars_append fun segment member => (literal segment member).ne_globstar]
  rw [List.cons_append, if_neg, if_neg, if_neg, covering?_of_ne other]
  · exact fun same => other (List.cons.inj same).1
  · exact fun same => other (List.cons.inj same).1
  · exact fun same => other (List.cons.inj same).1

include lineWhole linePart in
/-- Whether there is a form for the rest does not depend on the segments in front. -/
theorem exists_formOf?_of_prefixed (made : ∃ form, formOf? whole = some form) :
    ∃ form, formOf? part = some form := by
  have legible := (exists_formOf?_iff_of_line lineWhole).mp made
  exact (exists_formOf?_iff_of_line linePart).mpr fun segment held =>
    legible segment (List.mem_append_right _ held)

include linePart nonempty in
/-- Behind a slash, the form of the rest accepts what it accepts on its own. A directory that globstars alone
describe is an exception. -/
theorem fits_formOf?_iff_of_slash (apart : ∀ segment ∈ rest, IsApart segment)
    (named : isDirectory = true → mergeGlobstars rest ≠ [globstar])
    (plain : ∀ name ∈ names, IsPlainName name) :
    Fits (formOf? part) (Text.join '/' names) ↔
      names ≠ [] ∧ Fits (coveringFrom? true (mergeGlobstars rest)) ('/' :: Text.join '/' names) := by
  by_cases alone : mergeGlobstars rest = [globstar]
  · have file : isDirectory = false := Bool.eq_false_iff.mpr fun directory => named directory alone
    rw [fits_formOf?_of_globstar linePart plain file alone, alone, fits_last_globstar]
    simp
  · rw [fits_formOf?_of_ne linePart plain alone, fits_slash_mergeGlobstars nonempty alone]
    constructor
    · intro fits
      refine ⟨?_, fits⟩
      intro none
      subst none
      exact not_fits_mergeGlobstars_nil nonempty alone apart fits
    · intro found
      exact found.2

include lineWhole linePart literal nonempty in
/-- The form of the whole accepts the names of the literal segments and behind them what the form of the
rest accepts. -/
theorem fits_formOf?_prefixed (apart : ∀ segment ∈ rest, IsApart segment)
    (named : start ≠ [] → isDirectory = true → mergeGlobstars rest ≠ [globstar])
    (plain : ∀ name ∈ names, IsPlainName name) :
    Fits (formOf? whole) (Text.join '/' names) ↔
      ∃ later, names = start ++ later ∧ Fits (formOf? part) (Text.join '/' later) := by
  by_cases none : start = []
  · subst none
    have same : formOf? whole = formOf? part := by
      simp only [formOf?, lineWhole, linePart, List.nil_append]
    simp [same]
  · have some := mt mergeGlobstars_eq_nil.mp nonempty
    rw [formOf?_eq_of_prefixed lineWhole literal none, fits_literals literal none some]
    constructor
    · intro found
      obtain ⟨beyond, same, fits⟩ := found
      obtain ⟨left, rfl⟩ := exists_slash_of_fits some fits
      obtain ⟨first, later, rfl, others, more, start_eq, rfl⟩ := exists_append_of_join_eq plain same
      have held := fun name member => plain name (List.mem_append_right first member)
      have names : first = start := by
        have split := Text.split_join others fun name member =>
          (plain name (List.mem_append_left later member)).clear
        rw [← start_eq, leadText_false, List.nil_append] at split
        rw [← split, Text.split_join none fun segment member => (literal segment member).clear]
      subst names
      exact ⟨later, rfl, (fits_formOf?_iff_of_slash linePart nonempty apart (named none) held).mpr ⟨more, fits⟩⟩
    · intro found
      obtain ⟨later, rfl, fits⟩ := found
      have held := fun name member => plain name (List.mem_append_right start member)
      obtain ⟨more, fits⟩ := (fits_formOf?_iff_of_slash linePart nonempty apart (named none) held).mp fits
      refine ⟨'/' :: Text.join '/' later, ?_, fits⟩
      rw [Text.join_append '/' none more]
      rfl

end Prefixed

/-- Behind literal segments, a globstar accepts any name. -/
theorem fits_formOf?_of_prefixed_globstar {whole name : Text} {start rest : List Text} {isDirectory : Bool}
    (line : lineSegments (anchoredLine whole) = (start ++ rest, isDirectory))
    (literal : ∀ segment ∈ start, IsLiteral segment) (some : start ≠ [])
    (alone : mergeGlobstars rest = [globstar]) :
    Fits (formOf? whole) (Text.join '/' (start ++ [name])) := by
  rw [formOf?_eq_of_prefixed line literal some, alone, fits_literals literal some (by simp)]
  refine ⟨'/' :: name, ?_, fits_last_globstar.mpr ⟨name, rfl⟩⟩
  rw [Text.join_append '/' some (by simp)]
  rfl

end PathSearch.Glob
