import PathSearch.Glob.Matcher

/-! What the form of segments in a row accepts, one segment at a time. -/

namespace PathSearch.Glob

/-- There is a form, and it accepts the text. -/
def Fits (form? : Option Form) (text : Text) : Prop :=
  ∃ form, form? = some form ∧ form.accepts text = true

theorem fits_some {form : Form} {text : Text} : Fits (some form) text ↔ form.accepts text = true := by
  simp [Fits]

theorem not_fits_none {text : Text} : ¬ Fits none text := by
  simp [Fits]

/-- The text of a slash that has to come first. -/
def leadText (slash : Bool) : Text := if slash then ['/'] else []

theorem leadText_true : leadText true = ['/'] := rfl

theorem leadText_false : leadText false = [] := rfl

namespace Piece

variable {accept : Text → Bool}

theorem throughRow_append (accept : Text → Bool) (first second : List Piece) :
    throughRow accept (first ++ second) = throughRow (throughRow accept second) first := by
  induction first with
  | nil => rfl
  | cons piece first ih =>
      funext text
      simp only [List.cons_append, throughRow, ih]

theorem rowCovers_append {first second : List Piece} {text : Text} :
    RowCovers (first ++ second) text ↔
      ∃ start rest, text = start ++ rest ∧ RowCovers first start ∧ RowCovers second rest := by
  induction first generalizing text with
  | nil =>
      constructor
      · intro covers
        exact ⟨[], text, rfl, rfl, covers⟩
      · intro found
        obtain ⟨_, rest, rfl, rfl, covers⟩ := found
        exact covers
  | cons piece first ih =>
      simp only [List.cons_append, RowCovers, ih]
      constructor
      · intro found
        obtain ⟨start, _, rfl, covers, middle, rest, rfl, covered, last⟩ := found
        exact ⟨start ++ middle, rest, by simp, ⟨start, middle, rfl, covers, covered⟩, last⟩
      · intro found
        obtain ⟨_, rest, rfl, ⟨start, middle, rfl, covers, covered⟩, last⟩ := found
        exact ⟨start, middle ++ rest, by simp, covers, middle, rest, rfl, covered, last⟩

theorem rowCovers_leadIn {slash : Bool} {text : Text} :
    RowCovers (leadIn slash) text ↔ text = leadText slash := by
  cases slash with
  | false => rfl
  | true =>
      constructor
      · intro found
        obtain ⟨_, _, rfl, ⟨character, same, rfl⟩, rfl⟩ := found
        simp only [CharSet.has, beq_iff_eq] at same
        simp [leadText, same]
      · intro none
        subst none
        exact ⟨['/'], [], rfl, ⟨'/', rfl, rfl⟩, rfl⟩

theorem rowCovers_leadIn_append {slash : Bool} {pieces : List Piece} {text : Text} :
    RowCovers (leadIn slash ++ pieces) text ↔
      ∃ rest, text = leadText slash ++ rest ∧ RowCovers pieces rest := by
  rw [rowCovers_append]
  constructor
  · intro found
    obtain ⟨start, rest, rfl, lead, covers⟩ := found
    exact ⟨rest, by rw [rowCovers_leadIn.mp lead], covers⟩
  · intro found
    obtain ⟨rest, rfl, covers⟩ := found
    exact ⟨leadText slash, rest, rfl, rowCovers_leadIn.mpr rfl, covers⟩

theorem rowCovers_wholeName {text : Text} :
    RowCovers wholeName text ↔ text ≠ [] ∧ '/' ∉ text := by
  constructor
  · intro found
    obtain ⟨_, _, rfl, ⟨character, free, rfl⟩, others, _, rfl, clear, rfl⟩ := found
    refine ⟨by simp, ?_⟩
    simp only [CharSet.has, bne_iff_ne] at free
    intro member
    simp only [List.cons_append, List.nil_append, List.append_nil, List.mem_cons] at member
    rcases member with same | member
    · exact free same.symm
    · have other := clear '/' member
      simp [CharSet.has] at other
  · intro found
    obtain ⟨some, clear⟩ := found
    obtain ⟨character, rest, rfl⟩ := List.exists_cons_of_ne_nil some
    simp only [List.mem_cons, not_or] at clear
    refine ⟨[character], rest, rfl, ⟨character, ?_, rfl⟩, rest, [], by simp, ?_, rfl⟩
    · simpa [CharSet.has] using Ne.symm clear.1
    · intro other member
      simp only [CharSet.has, bne_iff_ne]
      intro none
      subst none
      exact clear.2 member

end Piece

theorem Form.accepts_covering_append {pieces others : List Piece} {ending : Ending} {text : Text} :
    (Form.covering (pieces ++ others) ending).accepts text = true ↔
      ∃ start rest, text = start ++ rest ∧ Piece.RowCovers pieces start ∧
        (Form.covering others ending).accepts rest = true := by
  rw [Form.accepts_covering, Piece.throughRow_append, Piece.throughRow_iff]
  simp only [Form.accepts_covering]

theorem Form.accepts_covering_iff {pieces : List Piece} {ending : Ending} {text : Text} :
    (Form.covering pieces ending).accepts text = true ↔
      ∃ start rest, text = start ++ rest ∧ Piece.RowCovers pieces start ∧
        ending.accepts rest = true := by
  rw [Form.accepts_covering, Piece.throughRow_iff]

theorem exists_covering_of_coveringFrom? {slash : Bool} {segments : List Text} {form : Form}
    (made : coveringFrom? slash segments = some form) :
    ∃ pieces ending, form = .covering pieces ending := by
  unfold coveringFrom? at made
  split at made
  · cases made
    exact ⟨_, _, rfl⟩
  · split at made
    · cases made
      exact ⟨_, _, rfl⟩
    · split at made
      · cases made
        exact ⟨_, _, rfl⟩
      · obtain ⟨pieces, -, rfl⟩ := Option.map_eq_some_iff.mp made
        exact ⟨_, _, rfl⟩
  · simp only at made
    split at made
    · cases made
      exact ⟨_, _, rfl⟩
    · simp at made

section Segments

variable {slash : Bool} {segment next : Text} {rest : List Text} {text : Text}

theorem fits_last_globstar :
    Fits (coveringFrom? slash [globstar]) text ↔ ∃ beyond, text = '/' :: beyond := by
  rw [coveringFrom?, if_pos rfl, fits_some, Form.accepts_covering_iff]
  constructor
  · intro found
    obtain ⟨start, beyond, rfl, lead, -⟩ := found
    exact ⟨beyond, by rw [Piece.rowCovers_leadIn.mp lead]; rfl⟩
  · intro found
    obtain ⟨beyond, rfl⟩ := found
    exact ⟨['/'], beyond, rfl, Piece.rowCovers_leadIn.mpr rfl, rfl⟩

theorem fits_last_star :
    Fits (coveringFrom? slash [star]) text ↔
      ∃ name beyond, text = leadText slash ++ name ++ beyond ∧ name ≠ [] ∧ '/' ∉ name ∧
        Ending.slashFinish.accepts beyond = true := by
  rw [coveringFrom?, if_neg (by decide), if_pos rfl, fits_some, Form.accepts_covering_iff]
  simp only [Piece.rowCovers_leadIn_append, Piece.rowCovers_wholeName]
  constructor
  · intro found
    obtain ⟨_, beyond, rfl, ⟨name, rfl, some, clear⟩, finished⟩ := found
    exact ⟨name, beyond, rfl, some, clear, finished⟩
  · intro found
    obtain ⟨name, beyond, rfl, some, clear, finished⟩ := found
    exact ⟨_, beyond, rfl, ⟨name, rfl, some, clear⟩, finished⟩

theorem fits_last (plain : segment ≠ globstar) (named : segment ≠ star) :
    Fits (coveringFrom? slash [segment]) text ↔
      ∃ pieces name beyond, segmentPieces? segment = some pieces ∧
        text = leadText slash ++ name ++ beyond ∧ Piece.RowCovers pieces name ∧
          isOver beyond = true := by
  rw [coveringFrom?, if_neg plain, if_neg named]
  cases made : segmentPieces? segment with
  | none => simp [not_fits_none]
  | some pieces =>
      simp only [Option.map_some, fits_some, Form.accepts_covering_iff,
        Piece.rowCovers_leadIn_append, Option.some.injEq]
      constructor
      · intro found
        obtain ⟨_, beyond, rfl, ⟨name, rfl, covers⟩, finished⟩ := found
        exact ⟨pieces, name, beyond, rfl, rfl, covers, finished⟩
      · intro found
        obtain ⟨_, name, beyond, rfl, rfl, covers, finished⟩ := found
        exact ⟨_, beyond, rfl, ⟨name, rfl, covers⟩, finished⟩

/-- A form with pieces in front. -/
def prepended : Option (List Piece) → Option Form → Option Form
  | some pieces, some (.covering others ending) => some (.covering (pieces ++ others) ending)
  | _, _ => none

theorem coveringFrom?_cons :
    coveringFrom? slash (segment :: next :: rest) =
      prepended
        (if segment = globstar then some [.between]
        else (namePieces? segment).map fun pieces => leadIn slash ++ pieces)
        (coveringFrom? true (next :: rest)) := by
  rw [coveringFrom?]
  rfl

theorem fits_prepended {pieces? : Option (List Piece)} {segments : List Text} :
    Fits (prepended pieces? (coveringFrom? slash segments)) text ↔
      ∃ pieces start beyond, pieces? = some pieces ∧ text = start ++ beyond ∧
        Piece.RowCovers pieces start ∧ Fits (coveringFrom? slash segments) beyond := by
  cases pieces? with
  | none => simp [prepended, not_fits_none]
  | some pieces =>
      cases made : coveringFrom? slash segments with
      | none => simp [prepended, not_fits_none]
      | some form =>
          obtain ⟨others, ending, rfl⟩ := exists_covering_of_coveringFrom? made
          simp only [prepended, fits_some, Form.accepts_covering_append, Option.some.injEq]
          constructor
          · intro found
            obtain ⟨start, beyond, rfl, covers, accepted⟩ := found
            exact ⟨pieces, start, beyond, rfl, rfl, covers, accepted⟩
          · intro found
            obtain ⟨_, start, beyond, rfl, rfl, covers, accepted⟩ := found
            exact ⟨start, beyond, rfl, covers, accepted⟩

theorem fits_globstar :
    Fits (coveringFrom? slash (globstar :: next :: rest)) text ↔
      ∃ crossed beyond, text = crossed ++ beyond ∧ Piece.between.Covers crossed ∧
        Fits (coveringFrom? true (next :: rest)) beyond := by
  rw [coveringFrom?_cons, if_pos rfl, fits_prepended]
  constructor
  · intro found
    obtain ⟨_, start, beyond, ⟨⟩, rfl, ⟨crossed, _, rfl, covers, rfl⟩, fits⟩ := found
    exact ⟨crossed, beyond, by simp, covers, fits⟩
  · intro found
    obtain ⟨crossed, beyond, rfl, covers, fits⟩ := found
    exact ⟨_, crossed, beyond, rfl, rfl, ⟨crossed, [], by simp, covers, rfl⟩, fits⟩

theorem fits_segment (plain : segment ≠ globstar) :
    Fits (coveringFrom? slash (segment :: next :: rest)) text ↔
      ∃ pieces name beyond, namePieces? segment = some pieces ∧
        text = leadText slash ++ name ++ beyond ∧ Piece.RowCovers pieces name ∧
          Fits (coveringFrom? true (next :: rest)) beyond := by
  rw [coveringFrom?_cons, if_neg plain, fits_prepended]
  constructor
  · intro given
    obtain ⟨_, start, beyond, found, rfl, covers, fits⟩ := given
    obtain ⟨pieces, made, rfl⟩ := Option.map_eq_some_iff.mp found
    obtain ⟨name, rfl, named⟩ := Piece.rowCovers_leadIn_append.mp covers
    exact ⟨pieces, name, beyond, made, rfl, named, fits⟩
  · intro given
    obtain ⟨pieces, name, beyond, made, rfl, named, fits⟩ := given
    exact ⟨_, _, beyond, by rw [made]; rfl, rfl,
      Piece.rowCovers_leadIn_append.mpr ⟨name, rfl, named⟩, fits⟩

theorem covering?_of_ne (plain : segment ≠ globstar) :
    covering? (segment :: rest) = coveringFrom? false (segment :: rest) := by
  cases rest with
  | nil => rfl
  | cons next rest => simp only [covering?, if_neg plain]

theorem covering?_globstar :
    covering? (globstar :: next :: rest) =
      prepended (some [.above]) (coveringFrom? false (next :: rest)) := by
  simp only [covering?, if_true]
  cases made : coveringFrom? false (next :: rest) with
  | none => rfl
  | some form =>
      obtain ⟨others, ending, rfl⟩ := exists_covering_of_coveringFrom? made
      rfl

theorem fits_above :
    Fits (covering? (globstar :: next :: rest)) text ↔
      ∃ crossed beyond, text = crossed ++ beyond ∧ Piece.above.Covers crossed ∧
        Fits (coveringFrom? false (next :: rest)) beyond := by
  rw [covering?_globstar, fits_prepended]
  constructor
  · intro found
    obtain ⟨_, start, beyond, ⟨⟩, rfl, ⟨crossed, _, rfl, covers, rfl⟩, fits⟩ := found
    exact ⟨crossed, beyond, by simp, covers, fits⟩
  · intro found
    obtain ⟨crossed, beyond, rfl, covers, fits⟩ := found
    exact ⟨_, crossed, beyond, rfl, rfl, ⟨crossed, [], by simp, covers, rfl⟩, fits⟩

end Segments

end PathSearch.Glob
