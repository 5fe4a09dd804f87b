namespace PathSearch

/-- A binary floating-point number of 64 bits. A finite one is `mantissa * 2 ^ exponent` with a
mantissa below `2 ^ 53`; the exponent is the least one that allows it, and at least `-1074`. -/
inductive Binary64 where
  | finite (negative : Bool) (mantissa : Nat) (exponent : Int)
  | infinite (negative : Bool)
  | nan
  deriving DecidableEq, Repr

namespace Binary64

/-- The quotient rounded to a whole number, a half to the even neighbour. -/
def roundQuotient (numerator denominator : Nat) : Nat :=
  let quotient := numerator / denominator
  let twice := 2 * (numerator % denominator)
  if twice < denominator then quotient
  else if denominator < twice then quotient + 1
  else quotient + quotient % 2

def leastExponent : Int := -1074

def greatestExponent : Int := 971

/-- The exponent that gives a positive quotient a mantissa of 53 bits, or the least exponent. -/
def exponentOf (numerator denominator : Nat) : Int :=
  let gap : Int := (numerator.log2 : Int) - denominator.log2
  let reached := denominator * Nat.pow 2 gap.toNat ≤ numerator * Nat.pow 2 (-gap).toNat
  max leastExponent (if reached then gap - 52 else gap - 53)

/-- The number nearest to a positive quotient. -/
def ofQuotient (negative : Bool) (numerator denominator : Nat) : Binary64 :=
  let exponent := exponentOf numerator denominator
  let mantissa :=
    roundQuotient (numerator * Nat.pow 2 (-exponent).toNat)
      (denominator * Nat.pow 2 exponent.toNat)
  let (mantissa, exponent) :=
    if mantissa = Nat.pow 2 53 then (Nat.pow 2 52, exponent + 1) else (mantissa, exponent)
  if greatestExponent < exponent then .infinite negative else .finite negative mantissa exponent

/-- The number nearest to `digits * 10 ^ exponent`. A decimal of that many places is beyond the
greatest number or below half the least one, so no power of ten has to be computed for it. -/
def ofDecimal (negative : Bool) (digits : Nat) (exponent : Int) : Binary64 :=
  let places : Int := (Nat.toDigits 10 digits).length + exponent
  if digits = 0 ∨ places < -400 then .finite negative 0 leastExponent
  else if 400 < places then .infinite negative
  else ofQuotient negative (digits * Nat.pow 10 exponent.toNat) (Nat.pow 10 (-exponent).toNat)

end Binary64

end PathSearch
