import PathSearch.Text.Basic

namespace PathSearch.Toml

/-- Why a text is not read as a document. A whole number with more than `Text.digitLimit` digits and
values nested too deeply are told apart from text that follows no rule of the format. -/
inductive Fault where
  | malformed
  | tooManyDigits
  | tooNested
  deriving DecidableEq, Repr

/-- What was read at the start of a text, and the shorter text that is left. -/
structure Read (text : Text) (α : Type) where
  value : α
  rest : Text
  shorter : rest.length < text.length

namespace Read

variable {text longer : Text} {α β : Type}

def map (change : α → β) (read : Read text α) : Read text β :=
  ⟨change read.value, read.rest, read.shorter⟩

/-- What was read at the start of a text, as read from a text that the first one is the end of. -/
def within (read : Read text α) (bound : text.length ≤ longer.length) : Read longer α :=
  ⟨read.value, read.rest, Nat.lt_of_lt_of_le read.shorter bound⟩

def followedBy (read : Read text α) (next : Read read.rest β) : Read text β :=
  next.within (Nat.le_of_lt read.shorter)

end Read

abbrev Scan := StateT Text Option

namespace Scan

variable {α : Type}

def character (accepted : Char → Bool) : Scan Char := fun text =>
  match text with
  | [] => none
  | character :: rest => if accepted character then some (character, rest) else none

def word (expected : String) : Scan Unit := fun text =>
  (Text.after? expected.toList text).map fun rest => ((), rest)

/-- What comes next if it is there, and otherwise nothing, which takes nothing. -/
def optional (scan : Scan α) : Scan (Option α) := fun text =>
  match scan text with
  | some (value, rest) => some (some value, rest)
  | none => some (none, text)

def read? (scan : Scan α) (text : Text) : Option (Read text α) :=
  match scan text with
  | none => none
  | some (value, rest) =>
      if shorter : rest.length < text.length then some ⟨value, rest, shorter⟩ else none

end Scan

def isSpace (character : Char) : Bool := character = ' ' || character = '\t'

/-- Control characters other than the tab are not written as themselves. -/
def isPlain (character : Char) : Bool :=
  character = '\t' || (0x20 ≤ character.toNat && character.toNat ≠ 0x7F)

def skipSpace (text : Text) : Text := text.dropWhile isSpace

theorem skipSpace_le (text : Text) : (skipSpace text).length ≤ text.length :=
  (List.dropWhile_sublist isSpace).length_le

/-- What is left after the rest of a line, which may hold blanks and a comment only. -/
def endLine? (inComment : Bool) : Text → Option Text
  | [] => some []
  | character :: rest =>
      if character = '\n' then some rest
      else if inComment then if isPlain character then endLine? true rest else none
      else if isSpace character then endLine? false rest
      else if character = '#' then endLine? true rest
      else none

theorem endLine?_shorter {inComment : Bool} {text rest : Text}
    (ended : endLine? inComment text = some rest) : text = [] ∨ rest.length < text.length := by
  induction text generalizing inComment with
  | nil => exact .inl rfl
  | cons character tail ih =>
      have bound : ∀ mode, endLine? mode tail = some rest → rest.length ≤ tail.length := by
        intro mode later
        rcases ih later with rfl | shorter
        · simp only [endLine?, Option.some.injEq] at later
          simp [← later]
        · exact Nat.le_of_lt shorter
      right
      simp only [endLine?] at ended
      split at ended
      · cases ended
        simp
      · split at ended <;> split at ended
        · exact Nat.lt_succ_of_le (bound _ ended)
        · cases ended
        · exact Nat.lt_succ_of_le (bound _ ended)
        · split at ended
          · exact Nat.lt_succ_of_le (bound _ ended)
          · cases ended

/-- What is left after blanks, line ends and comments. -/
def skipFiller? (inComment : Bool) : Text → Option Text
  | [] => some []
  | character :: rest =>
      if character = '\n' then skipFiller? false rest
      else if inComment then if isPlain character then skipFiller? true rest else none
      else if isSpace character then skipFiller? false rest
      else if character = '#' then skipFiller? true rest
      else some (character :: rest)

theorem skipFiller?_le {inComment : Bool} {text rest : Text}
    (skipped : skipFiller? inComment text = some rest) : rest.length ≤ text.length := by
  induction text generalizing inComment with
  | nil => simp_all [skipFiller?]
  | cons character tail ih =>
      simp only [skipFiller?] at skipped
      split at skipped
      · exact Nat.le_succ_of_le (ih skipped)
      · split at skipped <;> split at skipped
        · exact Nat.le_succ_of_le (ih skipped)
        · cases skipped
        · exact Nat.le_succ_of_le (ih skipped)
        · split at skipped
          · exact Nat.le_succ_of_le (ih skipped)
          · cases skipped
            exact Nat.le_refl _

end PathSearch.Toml
