import PathSearch.Text.Digit
import PathSearch.Toml.Read
import PathSearch.Toml.Value

namespace PathSearch.Toml

open Text (digitValue isDigitOf numberOf)

/-! Numbers, dates and times -/

/-- Further digits, each of which may have an underscore before it. -/
def moreDigits (base : Nat) : Text → Text × Text
  | [] => ([], [])
  | [character] => if isDigitOf base character then ([character], []) else ([], [character])
  | character :: next :: rest =>
      if isDigitOf base character then
        let (digits, beyond) := moreDigits base (next :: rest)
        (character :: digits, beyond)
      else if character = '_' ∧ isDigitOf base next then
        let (digits, beyond) := moreDigits base rest
        (next :: digits, beyond)
      else ([], character :: next :: rest)

namespace Scan

def more (base : Nat) : Scan Text := fun text => some (moreDigits base text)

/-- One or more digits with single underscores between them. -/
def digits (base : Nat) : Scan Text := do
  let first ← character (isDigitOf base)
  return first :: (← more base)

def places : Nat → Scan Nat
  | 0 => return 0
  | count + 1 => do
      let digit ← character (isDigitOf 10)
      let rest ← places count
      return digitValue digit * Nat.pow 10 count + rest

def sign : Scan Bool := do
  let sign ← optional (character fun sign => sign = '+' || sign = '-')
  return sign = some '-'

def based (start : String) (base : Nat) : Scan Value := do
  word start
  let digits ← digits base
  return .integer (numberOf base digits)

/-- The digits of a whole number: a zero alone, or digits that start with another one. -/
def wholeDigits : Scan Text := do
  let first ← character (isDigitOf 10)
  if first = '0' then return [first] else return first :: (← more 10)

def fraction : Scan Text := do
  word "."
  digits 10

def power : Scan Int := do
  let _ ← character fun mark => mark = 'e' || mark = 'E'
  let negative ← sign
  let magnitude := numberOf 10 (← digits 10)
  return if negative then -magnitude else magnitude

/-- A decimal number, with the number of digits when it is a whole one. -/
def decimal : Scan (Value × Nat) := do
  let negative ← sign
  let whole ← wholeDigits
  let places ← optional fraction
  let power ← optional power
  if places.isNone ∧ power.isNone then
    let magnitude : Int := numberOf 10 whole
    return (.integer (if negative then -magnitude else magnitude), whole.length)
  else
    let places := places.getD []
    let exponent := power.getD 0 - places.length
    return (.real (.ofDecimal negative (numberOf 10 (whole ++ places)) exponent), 0)

def special : Scan Value := do
  let negative ← sign
  (do word "inf"; return .real (.infinite negative)) <|> (do word "nan"; return .real .nan)

def boolean : Scan Value :=
  (do word "true"; return .boolean true) <|> (do word "false"; return .boolean false)

def date : Scan Date := do
  let year ← places 4
  word "-"
  let month ← places 2
  word "-"
  let date : Date := ⟨year, month, ← places 2⟩
  guard date.isValid
  return date

/-- The microseconds after a point; digits beyond the sixth are dropped. -/
def microseconds : Scan Nat := do
  word "."
  let first ← character Char.isDigit
  let others ← fun text => some (text.takeWhile Char.isDigit, text.dropWhile Char.isDigit)
  let digits := first :: others.take 5
  return numberOf 10 digits * Nat.pow 10 (6 - digits.length)

def clock : Scan Clock := do
  let hour ← places 2
  word ":"
  let minute ← places 2
  word ":"
  let second ← places 2
  let clock : Clock := ⟨hour, minute, second, 0⟩
  guard clock.isValid
  return { clock with microsecond := (← optional microseconds).getD 0 }

/-- How far a clock is ahead of universal time, in minutes. -/
def offset : Scan Int :=
  (do let _ ← character fun zone => zone = 'Z' || zone = 'z'; return 0) <|> do
    let direction ← character fun sign => sign = '+' || sign = '-'
    let hours ← places 2
    word ":"
    let minutes ← places 2
    guard (hours < 24 ∧ minutes < 60)
    let ahead : Int := hours * 60 + minutes
    return if direction = '-' then -ahead else ahead

def clockOfDay : Scan (Clock × Option Int) := do
  let _ ← character fun mark => mark = 'T' || mark = 't' || mark = ' '
  return (← clock, ← optional offset)

def moment : Scan Value := do
  let date ← date
  match ← optional clockOfDay with
  | none => return .date date
  | some (clock, offset) => return .moment date clock offset

/-- A value that holds no other values and no quoted text, with its number of digits if that is
limited. -/
def scalar : Scan (Value × Nat) :=
  let unlimited := fun (scan : Scan Value) => do return (← scan, 0)
  unlimited boolean <|> unlimited moment <|> unlimited (do return .time (← clock)) <|>
    unlimited (based "0x" 16 <|> based "0o" 8 <|> based "0b" 2) <|> decimal <|> unlimited special

end Scan

def readScalar (text : Text) : Except Fault (Read text Value) :=
  match Scan.scalar.read? text with
  | none => .error .malformed
  | some read =>
      if Text.digitLimit < read.value.2 then .error .tooManyDigits else .ok (read.map Prod.fst)

end PathSearch.Toml
