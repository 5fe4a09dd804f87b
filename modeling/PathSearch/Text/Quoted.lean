import PathSearch.Text.Printable

namespace PathSearch.Text

/-!
Quoted text: the form in which messages show a pattern or a path. A reader can tell where the text
ends and which characters it holds, because everything without a shape of its own is written as an
escape.
-/

def hexDigit (value : Nat) : Char :=
  Char.ofNat (if value < 10 then 0x30 + value else 0x61 + (value - 10))

/-- The `width` lowest hexadecimal digits, the most significant one first. -/
def hex : Nat → Nat → Text
  | 0, _ => []
  | width + 1, value => hex width (value / 16) ++ [hexDigit (value % 16)]

/-- The apostrophe encloses quoted text, unless that would force an escape which the double quote
avoids. -/
def quoteMark (text : Text) : Char :=
  if '\x27' ∈ text ∧ '\x22' ∉ text then '\x22' else '\x27'

def escape (mark character : Char) : Text :=
  let code := character.toNat
  if character = mark ∨ character = '\\' then ['\\', character]
  else if character = '\n' then ['\\', 'n']
  else if character = '\r' then ['\\', 'r']
  else if character = '\t' then ['\\', 't']
  else if isPrintable character then [character]
  else if code ≤ 0xFF then '\\' :: 'x' :: hex 2 code
  else if code ≤ 0xFFFF then '\\' :: 'u' :: hex 4 code
  else '\\' :: 'U' :: hex 8 code

def quoted (text : Text) : Text :=
  let mark := quoteMark text
  mark :: text.flatMap (escape mark) ++ [mark]

end PathSearch.Text
