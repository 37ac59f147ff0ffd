/-
  The shortest decimal form of a double-precision number.

  A number is written by the fewest digits that read back as it.  For each
  count of digits the two neighbours of the number on that decimal grid are
  tried; the first grid with a hit wins, and of two hits the nearer one, in a
  tie the even one.  `text` then places the point: numbers from `10 ^ -4` up
  to `10 ^ 16` are written positionally, others by a power of ten of at least
  two digits.
-/
import IdlFlow.Number.Binary64
import IdlFlow.Number.Decimal

namespace IdlFlow.Binary64

/-! ## The digits -/

/-- The reals between which a positive number is the nearest, as fractions of
    one denominator; `closed` if the two ends belong to it. -/
structure Cell where
  low : Nat
  value : Nat
  high : Nat
  denominator : Nat
  closed : Bool

/-- The cell of `significand · 2 ^ exponent`.  Below a power of two the
    neighbour is only half as far, except among the smallest numbers. -/
def cell (significand : Nat) (exponent : Int) : Cell :=
  let (unit, denominator) := scale 1 (exponent - 2)
  let below := if significand = fullSignificand ∧ leastExponent < exponent then 1 else 2
  ⟨(4 * significand - below) * unit, 4 * significand * unit, (4 * significand + 2) * unit,
    denominator, significand % 2 = 0⟩

/-- Whether `n · 10 ^ power` reads back as the number of the cell. -/
def Cell.holds (c : Cell) (n : Nat) (power : Int) : Bool :=
  let (x, d) := if 0 ≤ power then (n * Nat.pow 10 power.toNat, 1)
    else (n, Nat.pow 10 (-power).toNat)
  let x := x * c.denominator
  if c.closed then c.low * d ≤ x && x ≤ c.high * d else c.low * d < x && x < c.high * d

/-- The `p` with `10 ^ (p - 1) ≤ value < 10 ^ p`. -/
def Cell.magnitude (c : Cell) : Int :=
  if c.denominator ≤ c.value then (Decimal.digits (c.value / c.denominator)).length
  else 1 - ((Decimal.digits ((c.denominator - 1) / c.value)).length : Int)

/-- The value divided by `10 ^ power`, as a fraction. -/
def Cell.onGrid (c : Cell) (power : Int) : Nat × Nat :=
  if 0 ≤ power then (c.value, c.denominator * Nat.pow 10 power.toNat)
  else (c.value * Nat.pow 10 (-power).toNat, c.denominator)

/-- The better neighbour of the value among the multiples of `10 ^ power` that
    read back as it. -/
def Cell.hit? (c : Cell) (power : Int) : Option Nat :=
  let (num, den) := c.onGrid power
  let below := num / den
  match c.holds below power, c.holds (below + 1) power with
  | true, true => some (roundDiv num den)
  | true, false => some below
  | false, true => some (below + 1)
  | false, false => none

/-- The first hit with `count`, `count + 1`, … digits, at most `more` times;
    after that the digits below the value. -/
def Cell.shortestFrom (c : Cell) (count : Nat) : Nat → Nat × Int
  | 0 =>
    let power := c.magnitude - count
    let (num, den) := c.onGrid power
    (num / den, power)
  | more + 1 =>
    let power := c.magnitude - count
    match c.hit? power with
    | some n => (n, power)
    | none => c.shortestFrom (count + 1) more

/-- The digits of a positive number, without zeros at the end, and the place
    of the point: the number is `0.d₁d₂… · 10 ^ point`. -/
def shortest (significand : Nat) (exponent : Int) : Text × Int :=
  let (n, power) := (cell significand exponent).shortestFrom 1 17
  let digits := Decimal.digits n
  ((digits.reverse.dropWhile (· = '0')).reverse, digits.length + power)

/-! ## The layout -/

/-- The places of the point for which a number is written positionally. -/
structure PositionalRange where
  least : Int
  greatest : Int

/-- Positional from `0.0001` to below `10 ^ 16`. -/
def positionalRange : PositionalRange := ⟨-3, 16⟩

/-- Digits with the point among, before or behind them; there is always a
    digit on both sides of it. -/
def positional (digits : Text) (point : Int) : Text :=
  if point ≤ 0 then "0." ++ List.replicate (-point).toNat '0' ++ digits
  else if digits.length ≤ point.toNat then
    digits ++ List.replicate (point.toNat - digits.length) '0' ++ ".0"
  else digits.take point.toNat ++ '.' :: digits.drop point.toNat

/-- Digits with the point after the first one and a power of ten. -/
def scientific (digits : Text) (point : Int) : Text :=
  let power := point - 1
  digits.take 1 ++ (if digits.length ≤ 1 then [] else '.' :: digits.drop 1) ++
    (if power < 0 then "e-" else "e+") ++ (Decimal.digits power.natAbs).leftpad 2 '0'

/-- The digits of a finite number, laid out. -/
def magnitudeText (significand : Nat) (exponent : Int) : Text :=
  if significand = 0 then "0.0" else
    let (digits, point) := shortest significand exponent
    if positionalRange.least ≤ point ∧ point ≤ positionalRange.greatest then
      positional digits point
    else scientific digits point

/-- The words for the values that no digits write. -/
structure Words where
  infinity : Text
  nan : Text

/-- The shortest text of a number, with the given words for the others. -/
def text (words : Words) : Binary64 → Text
  | .finite true significand exponent => '-' :: magnitudeText significand exponent
  | .finite false significand exponent => magnitudeText significand exponent
  | .infinite true => '-' :: words.infinity
  | .infinite false => words.infinity
  | .nan => words.nan

end IdlFlow.Binary64
