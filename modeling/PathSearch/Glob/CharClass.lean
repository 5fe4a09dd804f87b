import PathSearch.Glob.Error

namespace PathSearch.Glob

/-- A closed range of characters; a single character is a range of one. -/
structure Span where
  first : Char
  last : Char
  deriving DecidableEq, Repr

namespace Span

def has (span : Span) (character : Char) : Bool := span.first ≤ character && character ≤ span.last

end Span

/-- A bracketed set of characters, or the complement of one. -/
structure CharClass where
  negated : Bool
  spans : List Span
  deriving DecidableEq, Repr

namespace CharClass

def has (charClass : CharClass) (character : Char) : Bool :=
  charClass.negated != charClass.spans.any fun span => span.has character

end CharClass

def isNegation (character : Char) : Bool := character == '!' || character == '^'

/-- The first character on its own, when it passes the test, and the text that is left. -/
def takeIf (test : Char → Bool) : Text → Text × Text
  | [] => ([], [])
  | character :: rest => if test character then ([character], rest) else ([], character :: rest)

theorem takeIf_append (test : Char → Bool) (text : Text) :
    (takeIf test text).1 ++ (takeIf test text).2 = text := by
  cases text with
  | nil => rfl
  | cons character rest => by_cases passed : test character = true <;> simp [takeIf, passed]

/-- Splits the text after an opening bracket into what the brackets enclose and what follows them.
A closing bracket right after the opening one, or right after a negation mark, is enclosed. -/
def enclosed? (text : Text) : Option (Text × Text) :=
  let (mark, unmarked) := takeIf isNegation text
  let (lead, rest) := takeIf (· == ']') unmarked
  (Text.splitFirst? ']' rest).map fun (inner, beyond) => (mark ++ lead ++ inner, beyond)

/-- The first range of the members that runs backwards, taking every dash between two characters
as a range. -/
def backwards? : Text → Option (Char × Char)
  | first :: '-' :: last :: rest =>
      if last < first then some (first, last) else backwards? ('-' :: last :: rest)
  | _ :: rest => backwards? rest
  | [] => none

theorem eq_of_enclosed? {text inner beyond : Text} (found : enclosed? text = some (inner, beyond)) :
    text = inner ++ ']' :: beyond := by
  simp only [enclosed?, Option.map_eq_some_iff] at found
  obtain ⟨⟨before, after⟩, split, shape⟩ := found
  cases shape
  have rest := Text.eq_of_splitFirst? split
  have unmarked := takeIf_append (· == ']') (takeIf isNegation text).2
  rw [rest] at unmarked
  rw [List.append_assoc, List.append_assoc, unmarked, takeIf_append]

theorem enclosed?_length {text inner beyond : Text} (found : enclosed? text = some (inner, beyond)) :
    beyond.length < text.length := by
  rw [eq_of_enclosed? found]
  simp
  omega

/-- Refuses a pattern in which a class is not closed or has a range that runs backwards. Leading
negation marks are left out of the ranges. -/
def checkClasses : Text → Except Reason Unit
  | [] => .ok ()
  | character :: rest =>
      if character = '[' then
        match found : enclosed? rest with
        | none => .error .unclosedClass
        | some (inner, beyond) =>
            have _shorter := enclosed?_length found
            match backwards? (inner.dropWhile isNegation) with
            | some (first, last) => .error (.reversedRange first last)
            | none => checkClasses beyond
      else checkClasses rest
termination_by text => text.length
decreasing_by all_goals grind

/-- Reads the members of a class from left to right: a dash with a character on either side makes a
range of the two, and the range must not run backwards. -/
def spans? : Text → Option (List Span)
  | [] => some []
  | first :: '-' :: last :: rest =>
      if last < first then none else (spans? rest).map fun spans => ⟨first, last⟩ :: spans
  | character :: rest => (spans? rest).map fun spans => ⟨character, character⟩ :: spans

def CharClass.read? (inner : Text) : Option CharClass :=
  match inner with
  | [] => some ⟨false, []⟩
  | character :: members =>
      if isNegation character then (spans? members).map fun spans => ⟨true, spans⟩
      else (spans? inner).map fun spans => ⟨false, spans⟩

end PathSearch.Glob
