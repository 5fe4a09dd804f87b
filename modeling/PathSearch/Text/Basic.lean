namespace PathSearch

/-- Text is a list of Unicode scalar values: patterns, names and paths are read one character at
a time, so the list is the working form and strings appear only at the edge of the program. -/
abbrev Text := List Char

/-- Whether the first list comes before the second one or is the same: the first place where they
differ decides, and a list comes before its continuations. -/
def lexLe {α : Type} [DecidableEq α] (le : α → α → Bool) : List α → List α → Bool
  | [], _ => true
  | _ :: _, [] => false
  | first :: rest, second :: others =>
      if first = second then lexLe le rest others else le first second

namespace Text

def ofString (source : String) : Text := source.toList

def toString (text : Text) : String := String.ofList text

/-- Texts are ordered by the code points of their characters. -/
def le (first second : Text) : Bool := lexLe (fun one other => one.toNat ≤ other.toNat) first second

/-- The pieces between the separators, empty ones included; one more than there are separators. -/
def split (separator : Char) : Text → List Text
  | [] => [[]]
  | character :: rest =>
      if character = separator then [] :: split separator rest
      else
        match split separator rest with
        | [] => [[character]]
        | piece :: pieces => (character :: piece) :: pieces

/-- The pieces in order with one separator between neighbours. -/
def join (separator : Char) : List Text → Text
  | [] => []
  | [piece] => piece
  | piece :: pieces => piece ++ separator :: join separator pieces

/-- The pieces in order with the text `between` standing between neighbours. -/
def joinWith (between : Text) : List Text → Text
  | [] => []
  | [piece] => piece
  | piece :: pieces => piece ++ between ++ joinWith between pieces

def replace (old new : Char) (text : Text) : Text :=
  text.map fun character => if character = old then new else character

def trimLeft (dropped : Char → Bool) (text : Text) : Text := text.dropWhile dropped

def trimRight (dropped : Char → Bool) (text : Text) : Text :=
  (text.reverse.dropWhile dropped).reverse

def trim (dropped : Char → Bool) (text : Text) : Text := trimRight dropped (trimLeft dropped text)

/-- What is left of the text after the leading part `start`, when it does start with it. -/
def after? : Text → Text → Option Text
  | [], text => some text
  | _ :: _, [] => none
  | expected :: start, character :: text =>
      if expected = character then after? start text else none

def occursIn (part : Text) : Text → Bool
  | [] => part.isEmpty
  | character :: rest => part.isPrefixOf (character :: rest) || occursIn part rest

def splitFirst? (separator : Char) : Text → Option (Text × Text)
  | [] => none
  | character :: rest =>
      if character = separator then some ([], rest)
      else (splitFirst? separator rest).map fun (before, after) => (character :: before, after)

theorem eq_of_splitFirst? {separator : Char} {text before after : Text}
    (found : text.splitFirst? separator = some (before, after)) :
    text = before ++ separator :: after := by
  induction text generalizing before with
  | nil => simp [splitFirst?] at found
  | cons character rest ih =>
      by_cases same : character = separator
      · simp only [splitFirst?, if_pos same, Option.some.injEq, Prod.mk.injEq] at found
        obtain ⟨rfl, rfl⟩ := found
        simp [same]
      · simp only [splitFirst?, if_neg same, Option.map_eq_some_iff] at found
        obtain ⟨⟨inner, beyond⟩, split, shape⟩ := found
        cases shape
        simp [ih split]

theorem split_ne_nil (separator : Char) (text : Text) : text.split separator ≠ [] := by
  cases text with
  | nil => simp [split]
  | cons character rest =>
      by_cases same : character = separator
      · simp [split, same]
      · simp only [split, if_neg same]
        split <;> simp

theorem join_split (separator : Char) (text : Text) :
    join separator (text.split separator) = text := by
  induction text with
  | nil => rfl
  | cons character rest ih =>
      by_cases same : character = separator
      · obtain ⟨piece, pieces, shape⟩ := List.exists_cons_of_ne_nil (split_ne_nil separator rest)
        rw [shape] at ih
        simp [split, same, shape, join, ih]
      · obtain ⟨piece, pieces, shape⟩ := List.exists_cons_of_ne_nil (split_ne_nil separator rest)
        rw [shape] at ih
        cases pieces with
        | nil => simp_all [split, join]
        | cons next others => simp_all [split, join]

theorem separator_notMem_of_mem_split {separator : Char} {text piece : Text}
    (member : piece ∈ text.split separator) : separator ∉ piece := by
  induction text generalizing piece with
  | nil => simp_all [split]
  | cons character rest ih =>
      by_cases same : character = separator
      · simp only [split, if_pos same, List.mem_cons] at member
        rcases member with rfl | member
        · simp
        · exact ih member
      · obtain ⟨first, others, shape⟩ := List.exists_cons_of_ne_nil (split_ne_nil separator rest)
        simp only [split, if_neg same, shape, List.mem_cons] at member
        rcases member with rfl | member
        · have absent := ih (show first ∈ split separator rest by simp [shape])
          simp [absent, Ne.symm same]
        · exact ih (by simp [shape, member])

end Text

end PathSearch
