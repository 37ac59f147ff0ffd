/-
  Double-precision numbers as exact values.

  A finite number is a significand times a power of two, with a sign that
  zero has as well.  `ofRatio` rounds a quotient to the nearest number, halves
  to the even significand; `ofDecimal` does so for digits times a power of
  ten.
-/

namespace IdlFlow

/-- A binary floating-point number of 53 significant bits.  In a finite number
    the significand is below `2 ^ 53`, and below `2 ^ 52` only if the exponent
    is the least one. -/
inductive Binary64
  | finite (negative : Bool) (significand : Nat) (exponent : Int)
  | infinite (negative : Bool)
  | nan
  deriving DecidableEq, Repr, Inhabited

namespace Binary64

/-- The exponent of the smallest numbers. -/
def leastExponent : Int := -1074

/-- The exponent of the greatest finite numbers. -/
def greatestExponent : Int := 971

/-- The least significand that uses all 53 bits. -/
def fullSignificand : Nat := Nat.pow 2 52

/-- Zero with a sign. -/
def zero (negative : Bool) : Binary64 := .finite negative 0 leastExponent

/-- `n · 2 ^ k`, for `k` of either sign, as a fraction. -/
def scale (n : Nat) (k : Int) : Nat × Nat :=
  if 0 ≤ k then (n * Nat.pow 2 k.toNat, 1) else (n, Nat.pow 2 (-k).toNat)

/-- `num / den` rounded to the nearest natural number, a half to the even
    one. -/
def roundDiv (num den : Nat) : Nat :=
  let quotient := num / den
  let twice := 2 * (num % den)
  if twice < den then quotient
  else if den < twice then quotient + 1
  else quotient + quotient % 2

/-- The greatest `e` with `2 ^ e ≤ num / den`, for positive `num` and `den`. -/
def floorLog (num den : Nat) : Int :=
  let e : Int := (Nat.log2 num : Int) - Nat.log2 den
  let (n, d) := scale den e
  if n ≤ num * d then e else e - 1

/-- The number nearest to `num / den`, infinite beyond the greatest finite
    one. -/
def ofRatio (negative : Bool) (num den : Nat) : Binary64 :=
  if num = 0 then zero negative else
    let exponent := max (floorLog num den - 52) leastExponent
    let (n, d) := scale den exponent
    let significand := roundDiv (num * d) n
    let (significand, exponent) :=
      if significand = 2 * fullSignificand then (fullSignificand, exponent + 1)
      else (significand, exponent)
    if greatestExponent < exponent then .infinite negative
    else .finite negative significand exponent

/-- The number nearest to `digits · 10 ^ power`.  Powers that lead beyond all
    finite numbers, or below half the smallest one, are not computed. -/
def ofDecimal (negative : Bool) (digits : Nat) (power : Int) : Binary64 :=
  if digits = 0 then zero negative
  else if 400 < power then .infinite negative
  else if 3 * power + (Nat.log2 digits + 1) < -1100 then zero negative
  else if 0 ≤ power then ofRatio negative (digits * Nat.pow 10 power.toNat) 1
  else ofRatio negative digits (Nat.pow 10 (-power).toNat)

end Binary64

end IdlFlow
