import PathSearch.Glob.CharClass

namespace PathSearch.Glob

/-- A set of characters that one position of a path can be drawn from. -/
inductive CharSet where
  | only (character : Char)
  | inName
  | listed (charClass : CharClass)
  deriving DecidableEq, Repr

namespace CharSet

def has : CharSet → Char → Bool
  | .only expected, character => character == expected
  | .inName, character => character != '/'
  | .listed charClass, character => charClass.has character

end CharSet

/-- A piece of a compiled glob covers part of a path. `above` stands for the directories in front of
a name and `between` for the directories between two names, none included in both cases. -/
inductive Piece where
  | one (set : CharSet)
  | many (set : CharSet)
  | above
  | between
  deriving DecidableEq, Repr

namespace Piece

def Covers : Piece → Text → Prop
  | .one set, text => ∃ character, set.has character = true ∧ text = [character]
  | .many set, text => ∀ character ∈ text, set.has character = true
  | .above, text => text = [] ∨ ∃ names, names ≠ [] ∧ '\n' ∉ names ∧ text = names ++ ['/']
  | .between, text => text = [] ∨ ∃ names, names ≠ [] ∧ '\n' ∉ names ∧ text = '/' :: names

/-- Whether the text splits into characters that all pass the test and a rest that is accepted. -/
def throughAll (test : Char → Bool) (accept : Text → Bool) : Text → Bool
  | [] => accept []
  | character :: rest =>
      accept (character :: rest) || (test character && throughAll test accept rest)

/-- Whether the text splits into characters other than newline, a slash, and an accepted rest. -/
def throughSlash (accept : Text → Bool) : Text → Bool
  | [] => false
  | character :: rest =>
      (character == '/' && accept rest) || (character != '\n' && throughSlash accept rest)

/-- Whether the text splits into a part that the piece covers and a rest that is accepted. -/
def through (piece : Piece) (accept : Text → Bool) (text : Text) : Bool :=
  match piece with
  | .one set =>
      match text with
      | [] => false
      | character :: rest => set.has character && accept rest
  | .many set => throughAll set.has accept text
  | .above =>
      accept text ||
        match text with
        | [] => false
        | character :: rest => character != '\n' && throughSlash accept rest
  | .between =>
      accept text ||
        match text with
        | slash :: character :: rest =>
            slash == '/' && character != '\n' && throughAll (· != '\n') accept rest
        | _ => false

theorem throughAll_iff {test : Char → Bool} {accept : Text → Bool} {text : Text} :
    throughAll test accept text = true ↔
      ∃ start rest, text = start ++ rest ∧ (∀ character ∈ start, test character = true) ∧
        accept rest = true := by
  induction text with
  | nil =>
      constructor
      · intro accepted
        exact ⟨[], [], rfl, by simp, accepted⟩
      · rintro ⟨start, rest, split, -, accepted⟩
        obtain ⟨rfl, rfl⟩ := List.append_eq_nil_iff.mp split.symm
        exact accepted
  | cons character text ih =>
      simp only [throughAll, Bool.or_eq_true, Bool.and_eq_true, ih]
      constructor
      · rintro (accepted | ⟨passed, start, rest, rfl, all, accepted⟩)
        · exact ⟨[], character :: text, rfl, by simp, accepted⟩
        · exact ⟨character :: start, rest, rfl, by simpa [passed] using all, accepted⟩
      · rintro ⟨start, rest, split, all, accepted⟩
        cases start with
        | nil => exact .inl (by rw [split]; exact accepted)
        | cons first start =>
            simp only [List.cons_append, List.cons.injEq] at split
            obtain ⟨rfl, rfl⟩ := split
            exact .inr ⟨all character (by simp), start, rest, rfl,
              fun other member => all other (by simp [member]), accepted⟩

theorem throughSlash_iff {accept : Text → Bool} {text : Text} :
    throughSlash accept text = true ↔
      ∃ names rest, text = names ++ '/' :: rest ∧ '\n' ∉ names ∧ accept rest = true := by
  induction text with
  | nil => simp [throughSlash]
  | cons character text ih =>
      simp only [throughSlash, Bool.or_eq_true, Bool.and_eq_true, ih, beq_iff_eq, bne_iff_ne]
      constructor
      · rintro (⟨rfl, accepted⟩ | ⟨inLine, names, rest, rfl, clear, accepted⟩)
        · exact ⟨[], text, rfl, by simp, accepted⟩
        · exact ⟨character :: names, rest, rfl, by simp [clear, Ne.symm inLine], accepted⟩
      · rintro ⟨names, rest, split, clear, accepted⟩
        cases names with
        | nil =>
            simp only [List.nil_append, List.cons.injEq] at split
            obtain ⟨rfl, rfl⟩ := split
            exact .inl ⟨rfl, accepted⟩
        | cons first names =>
            simp only [List.cons_append, List.cons.injEq] at split
            obtain ⟨rfl, rfl⟩ := split
            simp only [List.mem_cons, not_or] at clear
            exact .inr ⟨Ne.symm clear.1, names, rest, rfl, clear.2, accepted⟩

theorem through_iff {piece : Piece} {accept : Text → Bool} {text : Text} :
    piece.through accept text = true ↔
      ∃ start rest, text = start ++ rest ∧ piece.Covers start ∧ accept rest = true := by
  cases piece with
  | one set =>
      cases text with
      | nil => simp [through, Covers]
      | cons character text =>
          simp only [through, Covers, Bool.and_eq_true]
          constructor
          · rintro ⟨member, accepted⟩
            exact ⟨[character], text, rfl, ⟨character, member, rfl⟩, accepted⟩
          · rintro ⟨_, rest, split, ⟨other, member, rfl⟩, accepted⟩
            simp only [List.cons_append, List.nil_append, List.cons.injEq] at split
            obtain ⟨rfl, rfl⟩ := split
            exact ⟨member, accepted⟩
  | many set => simp only [through, Covers, throughAll_iff]
  | above =>
      simp only [through, Covers, Bool.or_eq_true]
      constructor
      · rintro (accepted | crossed)
        · exact ⟨[], text, rfl, .inl rfl, accepted⟩
        · cases text with
          | nil => simp at crossed
          | cons character text =>
              simp only [Bool.and_eq_true, bne_iff_ne, throughSlash_iff] at crossed
              obtain ⟨inLine, names, rest, rfl, clear, accepted⟩ := crossed
              exact ⟨(character :: names) ++ ['/'], rest, by simp,
                .inr ⟨_, by simp, by simp [clear, Ne.symm inLine], rfl⟩, accepted⟩
      · rintro ⟨_, rest, rfl, rfl | ⟨names, nonempty, clear, rfl⟩, accepted⟩
        · exact .inl accepted
        · obtain ⟨character, names, rfl⟩ := List.exists_cons_of_ne_nil nonempty
          simp only [List.mem_cons, not_or] at clear
          refine .inr ?_
          simp only [List.cons_append, Bool.and_eq_true, bne_iff_ne, throughSlash_iff]
          exact ⟨Ne.symm clear.1, names, rest, by simp, clear.2, accepted⟩
  | between =>
      simp only [through, Covers, Bool.or_eq_true]
      constructor
      · rintro (accepted | crossed)
        · exact ⟨[], text, rfl, .inl rfl, accepted⟩
        · rcases text with _ | ⟨slash, _ | ⟨character, text⟩⟩
          · simp at crossed
          · simp at crossed
          · simp only [Bool.and_eq_true, beq_iff_eq, bne_iff_ne, throughAll_iff] at crossed
            obtain ⟨⟨rfl, inLine⟩, start, rest, rfl, all, accepted⟩ := crossed
            refine ⟨'/' :: character :: start, rest, by simp,
              .inr ⟨_, by simp, ?_, rfl⟩, accepted⟩
            simp only [List.mem_cons, not_or]
            exact ⟨Ne.symm inLine, fun member => all '\n' member rfl⟩
      · rintro ⟨_, rest, rfl, rfl | ⟨names, nonempty, clear, rfl⟩, accepted⟩
        · exact .inl accepted
        · obtain ⟨character, names, rfl⟩ := List.exists_cons_of_ne_nil nonempty
          simp only [List.mem_cons, not_or] at clear
          refine .inr ?_
          simp only [List.cons_append, Bool.and_eq_true, beq_iff_eq, bne_iff_ne, throughAll_iff]
          refine ⟨⟨trivial, Ne.symm clear.1⟩, names, rest, rfl, ?_, accepted⟩
          intro other member same
          exact clear.2 (same ▸ member)

/-- Whether the pieces in a row cover a part of the text that leaves an accepted rest. -/
def throughRow (accept : Text → Bool) : List Piece → Text → Bool
  | [], text => accept text
  | piece :: pieces, text => piece.through (throughRow accept pieces) text

def RowCovers : List Piece → Text → Prop
  | [], text => text = []
  | piece :: pieces, text =>
      ∃ start rest, text = start ++ rest ∧ piece.Covers start ∧ RowCovers pieces rest

theorem throughRow_iff {accept : Text → Bool} {pieces : List Piece} {text : Text} :
    throughRow accept pieces text = true ↔
      ∃ start rest, text = start ++ rest ∧ RowCovers pieces start ∧ accept rest = true := by
  induction pieces generalizing text with
  | nil =>
      simp only [throughRow, RowCovers]
      constructor
      · intro accepted
        exact ⟨[], text, rfl, rfl, accepted⟩
      · rintro ⟨_, rest, rfl, rfl, accepted⟩
        exact accepted
  | cons piece pieces ih =>
      simp only [throughRow, RowCovers, through_iff, ih]
      constructor
      · rintro ⟨start, _, rfl, covers, middle, rest, rfl, covered, accepted⟩
        exact ⟨start ++ middle, rest, by simp, ⟨start, middle, rfl, covers, covered⟩, accepted⟩
      · rintro ⟨_, rest, rfl, ⟨start, middle, rfl, covers, covered⟩, accepted⟩
        exact ⟨start, middle ++ rest, by simp, covers, middle, rest, rfl, covered, accepted⟩

end Piece

end PathSearch.Glob
