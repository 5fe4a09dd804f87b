import PathSearch.Number.Binary64

namespace PathSearch.Binary64

/-- A positive decimal number, `digits * 10 ^ exponent`. -/
structure Decimal where
  digits : Nat
  exponent : Int
  deriving DecidableEq, Repr

/-- The number of digits before the point of `mantissa * 2 ^ exponent`; not positive for a number
below one tenth. -/
def integerPlaces (numerator denominator : Nat) : Int :=
  if denominator ≤ numerator then (Nat.toDigits 10 (numerator / denominator)).length
  else 1 - (Nat.toDigits 10 ((denominator - 1) / numerator)).length

/-- The decimals with so many digits next to a quotient, the nearer one first; of two equally near
ones the even one. -/
def neighbours (numerator denominator count : Nat) : List Decimal :=
  let exponent := integerPlaces numerator denominator - count
  let numerator := numerator * Nat.pow 10 (-exponent).toNat
  let denominator := denominator * Nat.pow 10 exponent.toNat
  let near := roundQuotient numerator denominator
  let below := numerator / denominator
  [⟨near, exponent⟩, ⟨2 * below + 1 - near, exponent⟩]

/-- The decimal without zeros at its end, of at most so many. -/
def Decimal.trim : Nat → Decimal → Decimal
  | 0, decimal => decimal
  | zeros + 1, decimal =>
      if decimal.digits ≠ 0 ∧ decimal.digits % 10 = 0 then
        Decimal.trim zeros ⟨decimal.digits / 10, decimal.exponent + 1⟩
      else decimal

/-- The shortest decimal that reads back as the positive number `mantissa * 2 ^ exponent`, of
several the nearest one. Seventeen digits always read back. -/
def shortest (mantissa : Nat) (exponent : Int) : Decimal :=
  let numerator := mantissa * Nat.pow 2 exponent.toNat
  let denominator := Nat.pow 2 (-exponent).toNat
  let candidates := (List.range 17).flatMap fun count =>
    neighbours numerator denominator (count + 1)
  let readsBack := fun (decimal : Decimal) =>
    ofDecimal false decimal.digits decimal.exponent = .finite false mantissa exponent
  ((candidates.find? readsBack).getD ⟨numerator, 0⟩).trim 17

/-- How the decimal digits of a number are laid out. Numbers whose leading digit stands for
`10 ^ firstPositional` up to `10 ^ lastPositional` are written without an exponent. -/
structure Layout where
  firstPositional : Int
  lastPositional : Int
  fractionKept : Bool
  exponentDigits : Nat

namespace Layout

def padded (width number : Nat) : String :=
  let digits := Nat.toDigits 10 number
  String.ofList (List.replicate (width - digits.length) '0' ++ digits)

def positional (layout : Layout) (digits : List Char) (exponent : Int) : String :=
  let whole := digits.length + exponent
  if 0 ≤ exponent then
    let ending := if layout.fractionKept then ".0" else ""
    String.ofList (digits ++ List.replicate exponent.toNat '0') ++ ending
  else if 0 < whole then
    String.ofList (digits.take whole.toNat ++ '.' :: digits.drop whole.toNat)
  else
    String.ofList ('0' :: '.' :: List.replicate (-whole).toNat '0' ++ digits)

def scientific (layout : Layout) (digits : List Char) (power : Int) : String :=
  let fraction := if digits.length = 1 then [] else '.' :: digits.drop 1
  let sign := if power < 0 then "-" else "+"
  String.ofList (digits.take 1 ++ fraction) ++ "e" ++ sign ++
    padded layout.exponentDigits power.natAbs

def decimal (layout : Layout) (decimal : Decimal) : String :=
  let digits := Nat.toDigits 10 decimal.digits
  let power := digits.length + decimal.exponent - 1
  if layout.firstPositional ≤ power ∧ power ≤ layout.lastPositional then
    layout.positional digits decimal.exponent
  else layout.scientific digits power

def text (layout : Layout) : Binary64 → String
  | .nan => "nan"
  | .infinite negative => if negative then "-inf" else "inf"
  | .finite negative mantissa exponent =>
      let sign := if negative then "-" else ""
      sign ++ layout.decimal (if mantissa = 0 then ⟨0, 0⟩ else shortest mantissa exponent)

end Layout

end PathSearch.Binary64
