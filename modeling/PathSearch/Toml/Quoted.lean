import PathSearch.Text.Digit
import PathSearch.Toml.Read

namespace PathSearch.Toml

/-!
Quoted text and keys. A basic text stands between quotation marks and has escapes, a literal text
stands between apostrophes and has none, and either may run over several lines between three marks.
-/

/-- The character with the code point that so many hexadecimal digits give. -/
def codePoint? (places : Nat) (text : Text) : Option (Char × Text) :=
  let digits := text.take places
  let code := Text.numberOf 16 digits
  if digits.length = places ∧ digits.all (Text.isDigitOf 16) ∧ code.isValidChar then
    some (Char.ofNat code, text.drop places)
  else none

/-- The character that an escape stands for, which starts after its backslash. -/
def escape? : Text → Option (Char × Text)
  | 'b' :: rest => some ('\x08', rest)
  | 't' :: rest => some ('\t', rest)
  | 'n' :: rest => some ('\n', rest)
  | 'f' :: rest => some ('\x0C', rest)
  | 'r' :: rest => some ('\r', rest)
  | '\x22' :: rest => some ('\x22', rest)
  | '\\' :: rest => some ('\\', rest)
  | 'u' :: rest => codePoint? 4 rest
  | 'U' :: rest => codePoint? 8 rest
  | _ => none

theorem codePoint?_le {places : Nat} {text rest : Text} {character : Char}
    (decoded : codePoint? places text = some (character, rest)) : rest.length ≤ text.length := by
  simp only [codePoint?] at decoded
  split at decoded
  · cases decoded
    simp
  · cases decoded

theorem escape?_le {text rest : Text} {character : Char}
    (decoded : escape? text = some (character, rest)) : rest.length ≤ text.length := by
  unfold escape? at decoded
  split at decoded <;> first
    | exact Nat.le_succ_of_le (codePoint?_le decoded)
    | simp_all

/-- What is left after a backslash that hides a line end, the blanks before it and all blanks and
line ends after it. -/
def hiddenLineEnd? (text : Text) : Option Text :=
  match skipSpace text with
  | '\n' :: rest => some (rest.dropWhile fun character => isSpace character || character = '\n')
  | _ => none

theorem hiddenLineEnd?_le {text rest : Text} (hidden : hiddenLineEnd? text = some rest) :
    rest.length ≤ text.length := by
  unfold hiddenLineEnd? at hidden
  split at hidden
  · next after shape =>
      cases hidden
      have space := skipSpace_le text
      rw [shape, List.length_cons] at space
      exact Nat.le_trans (List.dropWhile_sublist _).length_le (Nat.le_of_succ_le space)
  · cases hidden

/-- The content and what is left after a basic text on one line, from after its first mark. -/
def basicLine? (text : Text) : Option (Text × Text) :=
  match text with
  | [] => none
  | '\x22' :: rest => some ([], rest)
  | '\\' :: rest =>
      match _decoded : escape? rest with
      | none => none
      | some (character, beyond) =>
          (basicLine? beyond).map fun (content, after) => (character :: content, after)
  | character :: rest =>
      if isPlain character then
        (basicLine? rest).map fun (content, after) => (character :: content, after)
      else none
termination_by text.length
decreasing_by
  · exact Nat.lt_succ_of_le (escape?_le _decoded)
  · simp

/-- The content and what is left after a literal text on one line, from after its first mark. -/
def literalLine? : Text → Option (Text × Text)
  | [] => none
  | character :: rest =>
      if character = '\x27' then some ([], rest)
      else if isPlain character then
        (literalLine? rest).map fun (content, after) => (character :: content, after)
      else none

/-- Up to two marks that stand right after the three that end a text still belong to it. -/
def lateMarks (mark : Char) (text : Text) : Text × Text :=
  let late := (text.take 2).takeWhile (· = mark)
  (late, text.drop late.length)

/-- The content and what is left after a basic text on several lines. -/
def basicLines? (text : Text) : Option (Text × Text) :=
  match text with
  | [] => none
  | '\x22' :: '\x22' :: '\x22' :: rest => some (lateMarks '\x22' rest)
  | '\\' :: rest =>
      match _hidden : hiddenLineEnd? rest with
      | some beyond => basicLines? beyond
      | none =>
          match _decoded : escape? rest with
          | none => none
          | some (character, beyond) =>
              (basicLines? beyond).map fun (content, after) => (character :: content, after)
  | character :: rest =>
      if isPlain character ∨ character = '\n' then
        (basicLines? rest).map fun (content, after) => (character :: content, after)
      else none
termination_by text.length
decreasing_by
  · exact Nat.lt_succ_of_le (hiddenLineEnd?_le _hidden)
  · exact Nat.lt_succ_of_le (escape?_le _decoded)
  · simp

/-- The content and what is left after a literal text on several lines. -/
def literalLines? : Text → Option (Text × Text)
  | '\x27' :: '\x27' :: '\x27' :: rest => some (lateMarks '\x27' rest)
  | character :: rest =>
      if isPlain character ∨ character = '\n' then
        (literalLines? rest).map fun (content, after) => (character :: content, after)
      else none
  | [] => none

/-- A text on several lines does not hold a line end right after its first marks. -/
def skipFirstLineEnd : Text → Text
  | '\n' :: rest => rest
  | text => text

/-- Text between quotation marks or apostrophes on one line. -/
def quotedLine : Scan Text := fun text =>
  match text with
  | '\x22' :: rest => basicLine? rest
  | '\x27' :: rest => literalLine? rest
  | _ => none

/-- Text between quotation marks or apostrophes, on one line or several. -/
def quoted : Scan Text := fun text =>
  match text with
  | '\x22' :: '\x22' :: '\x22' :: rest => basicLines? (skipFirstLineEnd rest)
  | '\x27' :: '\x27' :: '\x27' :: rest => literalLines? (skipFirstLineEnd rest)
  | _ => quotedLine text

/-- A dotted name: the tables it goes through, and the name in the last of them. -/
structure Key where
  parents : List Text
  name : Text
  deriving DecidableEq, Repr

namespace Key

def path (key : Key) : List Text := key.parents ++ [key.name]

end Key

def isBare (character : Char) : Bool :=
  character.isAlphanum || character = '_' || character = '-'

/-- One name of a key, with the blanks after it. -/
def keyName : Scan Text := fun text =>
  let bare := text.takeWhile isBare
  let read := if bare.isEmpty then quotedLine text else some (bare, text.dropWhile isBare)
  read.map fun (name, rest) => (name, skipSpace rest)

def readKey (text : Text) : Except Fault (Read text Key) :=
  match keyName.read? text with
  | none => .error .malformed
  | some first =>
      match _shape : first.rest with
      | '.' :: rest => do
          let others ← readKey (skipSpace rest)
          let key : Key := ⟨first.value :: others.value.parents, others.value.name⟩
          return ⟨key, others.rest, by
            have bound := skipSpace_le rest
            have shorter := first.shorter
            have later := others.shorter
            rw [_shape, List.length_cons] at shorter
            omega⟩
      | _ => .ok (first.map fun name => ⟨[], name⟩)
termination_by text.length
decreasing_by
  have bound := skipSpace_le rest
  have shorter := first.shorter
  rw [_shape, List.length_cons] at shorter
  omega

end PathSearch.Toml
