import PathSearch.Text.Blank
import PathSearch.Text.Digit

namespace PathSearch.Text

/-!
Whole numbers as they are typed: decimal digits of any script with single underscores between them,
after an optional sign, and blanks around all of it.
-/

/-- Blanks around a number; the controls that separate records are not among them. -/
def isMargin (character : Char) : Bool :=
  isBlank character && !(0x1C ≤ character.toNat && character.toNat ≤ 0x1F)

def typedDigits? : Text → Option (List Nat)
  | [] => none
  | [character] => (decimalDigit? character).map fun digit => [digit]
  | character :: '_' :: rest => do
      let digit ← decimalDigit? character
      return digit :: (← typedDigits? rest)
  | character :: next :: rest => do
      let digit ← decimalDigit? character
      return digit :: (← typedDigits? (next :: rest))

def magnitude? (text : Text) : Option Nat := do
  let digits ← typedDigits? text
  if digitLimit < digits.length then none
  else return digits.foldl (fun number digit => 10 * number + digit) 0

def integer? (text : Text) : Option Int :=
  match text.trim isMargin with
  | '-' :: digits => (magnitude? digits).map fun magnitude => -(magnitude : Int)
  | '+' :: digits => (magnitude? digits).map fun magnitude => (magnitude : Int)
  | digits => (magnitude? digits).map fun magnitude => (magnitude : Int)

end PathSearch.Text
