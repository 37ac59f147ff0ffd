/-
  Integers in decimal, and the limit on their length.

  Reading and writing a decimal integer takes time that grows with the square
  of its length, so neither is done beyond `digitLimit` digits.
-/
import IdlFlow.Text.Basic

namespace IdlFlow

/-- The greatest number of decimal digits that an integer is read from or
    written in. -/
def digitLimit : Nat := 4300

namespace Decimal

/-- The digits of a natural number, without leading zeros. -/
def digits (n : Nat) : Text := Nat.toDigits 10 n

/-- The decimal numeral of an integer: digits after a minus sign if it is
    negative. -/
def numeral (i : Int) : Text :=
  if i < 0 then '-' :: digits i.natAbs else digits i.natAbs

/-- The numeral of an integer within the limit. -/
def numeral? (i : Int) : Option Text :=
  if (digits i.natAbs).length ≤ digitLimit then some (numeral i) else none

end Decimal

end IdlFlow
