import PathSearch.Glob.Piece

namespace PathSearch.Glob.Piece

/-!
Matching without going back. From the last piece of a row to the first, the rests of a text that the
pieces from there on accept are marked, so the effort grows with the number of pieces times the length
of the text and no faster.
-/

/-- The rests of a text, longest first. -/
def rests : Text → List Text
  | [] => [[]]
  | character :: rest => (character :: rest) :: rests rest

/-- A mark for every rest of a text: whether it is accepted. -/
def marksOf (accept : Text → Bool) (text : Text) : List Bool := (rests text).map accept

def whole (marks : List Bool) : Bool := marks.headD false

theorem marksOf_nil (accept : Text → Bool) : marksOf accept [] = [accept []] := rfl

theorem marksOf_cons (accept : Text → Bool) (character : Char) (rest : Text) :
    marksOf accept (character :: rest) = accept (character :: rest) :: marksOf accept rest := rfl

theorem whole_marksOf (accept : Text → Bool) (text : Text) :
    whole (marksOf accept text) = accept text := by
  cases text <;> rfl

def markOne (set : CharSet) : Text → List Bool → List Bool
  | character :: rest, _ :: later => (set.has character && whole later) :: markOne set rest later
  | _, _ => [false]

def markAll (test : Char → Bool) : Text → List Bool → List Bool
  | character :: rest, here :: later =>
      let beyond := markAll test rest later
      (here || (test character && whole beyond)) :: beyond
  | _, marks => marks

def markSlash : Text → List Bool → List Bool
  | character :: rest, _ :: later =>
      let beyond := markSlash rest later
      ((character == '/' && whole later) || (character != '\n' && whole beyond)) :: beyond
  | _, _ => [false]

/-- The marks of directories in front of a name; `crossing` holds the marks beyond a slash. -/
def markAbove : Text → List Bool → List Bool → List Bool
  | character :: rest, here :: later, _ :: crossing =>
      (here || (character != '\n' && whole crossing)) :: markAbove rest later crossing
  | _, marks, _ => marks

/-- The marks of directories between two names; `inLine` holds the marks beyond any characters other
than newline. -/
def markBetween : Text → List Bool → List Bool → List Bool
  | slash :: rest, here :: later, _ :: inLine =>
      let crosses :=
        match rest with
        | [] => false
        | character :: _ => slash == '/' && character != '\n' && whole (inLine.drop 1)
      (here || crosses) :: markBetween rest later inLine
  | _, marks, _ => marks

/-- The rests that a piece and the marked rests behind it accept. -/
def mark (piece : Piece) (text : Text) (marks : List Bool) : List Bool :=
  match piece with
  | .one set => markOne set text marks
  | .many set => markAll set.has text marks
  | .above => markAbove text marks (markSlash text marks)
  | .between => markBetween text marks (markAll (· != '\n') text marks)

theorem markOne_marksOf (set : CharSet) (accept : Text → Bool) (text : Text) :
    markOne set text (marksOf accept text) = marksOf ((Piece.one set).through accept) text := by
  induction text with
  | nil => rfl
  | cons character rest ih => simp [marksOf_cons, markOne, through, whole_marksOf, ih]

theorem markAll_marksOf (test : Char → Bool) (accept : Text → Bool) (text : Text) :
    markAll test text (marksOf accept text) = marksOf (throughAll test accept) text := by
  induction text with
  | nil => rfl
  | cons character rest ih => simp [marksOf_cons, markAll, throughAll, whole_marksOf, ih]

theorem markSlash_marksOf (accept : Text → Bool) (text : Text) :
    markSlash text (marksOf accept text) = marksOf (throughSlash accept) text := by
  induction text with
  | nil => rfl
  | cons character rest ih => simp [marksOf_cons, markSlash, throughSlash, whole_marksOf, ih]

theorem markAbove_marksOf (accept : Text → Bool) (text : Text) :
    markAbove text (marksOf accept text) (marksOf (throughSlash accept) text) =
      marksOf (Piece.above.through accept) text := by
  induction text with
  | nil => simp [marksOf_nil, markAbove, through]
  | cons character rest ih => simp [marksOf_cons, markAbove, through, whole_marksOf, ih]

theorem markBetween_marksOf (accept : Text → Bool) (text : Text) :
    markBetween text (marksOf accept text) (marksOf (throughAll (· != '\n') accept) text) =
      marksOf (Piece.between.through accept) text := by
  induction text with
  | nil => simp [marksOf_nil, markBetween, through]
  | cons slash rest ih =>
      cases rest with
      | nil => simp [marksOf_cons, marksOf_nil, markBetween, through]
      | cons character rest =>
          rw [marksOf_cons accept slash, marksOf_cons _ slash (character :: rest), markBetween, ih,
            marksOf_cons (throughAll (· != '\n') accept), List.drop_succ_cons, List.drop_zero,
            whole_marksOf]
          rfl

theorem mark_marksOf (piece : Piece) (accept : Text → Bool) (text : Text) :
    piece.mark text (marksOf accept text) = marksOf (piece.through accept) text := by
  cases piece with
  | one set => exact markOne_marksOf set accept text
  | many set => exact markAll_marksOf set.has accept text
  | above => rw [mark, markSlash_marksOf, markAbove_marksOf]
  | between => rw [mark, markAll_marksOf, markBetween_marksOf]

/-- The rests that pieces in a row and the marked rests behind them accept. -/
def markRow (text : Text) (marks : List Bool) : List Piece → List Bool
  | [] => marks
  | piece :: pieces => piece.mark text (markRow text marks pieces)

theorem markRow_marksOf (accept : Text → Bool) (pieces : List Piece) (text : Text) :
    markRow text (marksOf accept text) pieces = marksOf (throughRow accept pieces) text := by
  induction pieces with
  | nil => rfl
  | cons piece pieces ih =>
      rw [markRow, ih, mark_marksOf]
      rfl

/-- Whether pieces in a row and an accepted rest cover a text. Single characters at the start are
looked at one by one. -/
def acceptsRow (accept : Text → Bool) : List Piece → Text → Bool
  | .one set :: pieces, text =>
      match text with
      | [] => false
      | character :: rest => set.has character && acceptsRow accept pieces rest
  | pieces, text => whole (markRow text (marksOf accept text) pieces)

theorem acceptsRow_eq_throughRow (accept : Text → Bool) (pieces : List Piece) (text : Text) :
    acceptsRow accept pieces text = throughRow accept pieces text := by
  fun_induction acceptsRow accept pieces text with
  | case1 => rfl
  | case2 set pieces character rest ih => simp [throughRow, through, ih]
  | case3 pieces text => rw [markRow_marksOf, whole_marksOf]

end PathSearch.Glob.Piece
