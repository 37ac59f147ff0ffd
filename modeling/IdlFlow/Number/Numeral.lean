/-
  Numerals: the written forms of numbers, and the numbers they stand for.

  A numeral is an optional sign, then either hexadecimal digits after `0x`, or
  decimal digits with an optional fraction and an optional power of ten.
  `scan` takes the longest numeral off a text, `text_scan` says that nothing
  is lost.  The form is wider than what can be read: digits may be missing, or
  be digits without a place value, and `integer` and `double` say so.
-/
import IdlFlow.Text.Digit
import IdlFlow.Text.Blank
import IdlFlow.Text.Quoted
import IdlFlow.Number.Binary64
import IdlFlow.Number.Decimal

namespace IdlFlow

/-- A power of ten: its letter, sign and digits. -/
structure PowerOfTen where
  letter : Char
  sign : Option Char
  digits : Text
  deriving DecidableEq, Repr

/-- A numeral without its sign. -/
inductive Magnitude
  | hexadecimal (letter : Char) (digits : Text)
  | decimal (whole : Text) (fraction : Option Text) (power : Option PowerOfTen)
  deriving DecidableEq, Repr

/-- A written number. -/
structure Numeral where
  sign : Option Char
  magnitude : Magnitude
  deriving DecidableEq, Repr

/-- Why a numeral has no value. -/
inductive NumeralError
  /-- The digits are missing or are no digits of the base. -/
  | notInteger (base : Nat) (digits : Text)
  /-- There are more digits than may be read. -/
  | tooManyDigits (count : Nat)
  /-- Digits are missing or have no place value. -/
  | notDouble (text : Text)
  deriving DecidableEq, Repr

/-- How much of a quoted numeral a message shows. -/
def NumeralError.shownLength : Nat := 200

def NumeralError.message : NumeralError → Text
  | .notInteger base digits =>
    "invalid literal for int() with base " ++ Decimal.digits base ++ ": " ++
      (Text.quoted digits).take shownLength
  | .tooManyDigits count =>
    "Exceeds the limit (" ++ Decimal.digits digitLimit ++
      " digits) for integer string conversion: value has " ++ Decimal.digits count ++
      " digits; use sys.set_int_max_str_digits() to increase the limit"
  | .notDouble text => "could not convert string to float: " ++ Text.quoted text

/-! ## Written form -/

def PowerOfTen.text (p : PowerOfTen) : Text := p.letter :: p.sign.toList ++ p.digits

def Magnitude.text : Magnitude → Text
  | .hexadecimal letter digits => '0' :: letter :: digits
  | .decimal whole fraction power =>
    whole ++ (fraction.elim [] ('.' :: ·)) ++ (power.elim [] PowerOfTen.text)

namespace Numeral

/-- The numeral as it is written. -/
def text (n : Numeral) : Text := n.sign.toList ++ n.magnitude.text

/-- Whether the numeral is one of an integer: neither fraction nor power. -/
def isInteger (n : Numeral) : Bool :=
  match n.magnitude with
  | .hexadecimal .. => true
  | .decimal _ none none => true
  | .decimal .. => false

/-- Whether the numeral is one of a negative number. -/
def isNegative (n : Numeral) : Bool := n.sign = some '-'

/-! ## Scanning -/

def isSign (c : Char) : Bool := c = '+' || c = '-'

/-- The value of a hexadecimal digit of either case. -/
def hexValue? (c : Char) : Option Nat :=
  if '0' ≤ c ∧ c ≤ '9' then some (c.toNat - '0'.toNat)
  else if 'a' ≤ c ∧ c ≤ 'f' then some (c.toNat - 'a'.toNat + 10)
  else if 'A' ≤ c ∧ c ≤ 'F' then some (c.toNat - 'A'.toNat + 10)
  else none

def isHexDigit (c : Char) : Bool := (hexValue? c).isSome

/-- The sign in front of a text, and the rest. -/
def takeSign : Text → Option Char × Text
  | [] => (none, [])
  | c :: s => if isSign c then (some c, s) else (none, c :: s)

/-- The point and the digits after it in front of a text, and the rest. -/
def takeFraction : Text → Option Text × Text
  | [] => (none, [])
  | c :: s =>
    if c = '.' then (some (s.takeWhile Text.isDigit), s.dropWhile Text.isDigit)
    else (none, c :: s)

/-- The power of ten in front of a text, and the rest. -/
def takePower : Text → Option PowerOfTen × Text
  | [] => (none, [])
  | c :: s =>
    if c = 'e' ∨ c = 'E' then
      let (sign, s) := takeSign s
      (some ⟨c, sign, s.takeWhile Text.isDigit⟩, s.dropWhile Text.isDigit)
    else (none, c :: s)

/-- The digits with fraction and power in front of a text, and the rest. -/
def takeDecimal (s : Text) : Magnitude × Text :=
  let (fraction, rest) := takeFraction (s.dropWhile Text.isDigit)
  let (power, rest) := takePower rest
  (.decimal (s.takeWhile Text.isDigit) fraction power, rest)

/-- The magnitude in front of a text, and the rest. -/
def takeMagnitude : Text → Magnitude × Text
  | '0' :: c :: s =>
    if c = 'x' ∨ c = 'X' then
      (.hexadecimal c (s.takeWhile isHexDigit), s.dropWhile isHexDigit)
    else takeDecimal ('0' :: c :: s)
  | s => takeDecimal s

/-- The longest numeral in front of a text, and the rest. -/
def scan (s : Text) : Numeral × Text :=
  let (sign, rest) := takeSign s
  let (magnitude, rest) := takeMagnitude rest
  (⟨sign, magnitude⟩, rest)

/-! ## Nothing is lost -/

theorem text_takeSign (s : Text) : (takeSign s).1.toList ++ (takeSign s).2 = s := by
  cases s with
  | nil => rfl
  | cons c s => by_cases h : isSign c <;> simp [takeSign, h]

theorem text_takeFraction (s : Text) :
    ((takeFraction s).1.elim [] ('.' :: ·)) ++ (takeFraction s).2 = s := by
  cases s with
  | nil => rfl
  | cons c s => by_cases h : c = '.' <;> simp [takeFraction, h]

theorem text_takePower (s : Text) :
    ((takePower s).1.elim [] PowerOfTen.text) ++ (takePower s).2 = s := by
  cases s with
  | nil => rfl
  | cons c s =>
    by_cases h : c = 'e' ∨ c = 'E'
    · simp only [takePower, if_pos h, Option.elim, PowerOfTen.text, List.cons_append,
        List.append_assoc, List.takeWhile_append_dropWhile, text_takeSign]
    · simp [takePower, h]

theorem text_takeDecimal (s : Text) : (takeDecimal s).1.text ++ (takeDecimal s).2 = s := by
  simp only [takeDecimal, Magnitude.text, List.append_assoc]
  rw [text_takePower, text_takeFraction, List.takeWhile_append_dropWhile]

theorem text_takeMagnitude (s : Text) :
    (takeMagnitude s).1.text ++ (takeMagnitude s).2 = s := by
  unfold takeMagnitude
  split
  · split
    · simp [Magnitude.text]
    · exact text_takeDecimal _
  · exact text_takeDecimal _

theorem text_scan (s : Text) : (scan s).1.text ++ (scan s).2 = s := by
  simp only [scan, text, List.append_assoc, text_takeMagnitude, text_takeSign]

theorem text_takeDecimal_ne_nil {c : Char} (h : Text.isDigit c = true) (s : Text) :
    (takeDecimal (c :: s)).1.text ≠ [] := by
  simp [takeDecimal, Magnitude.text, h]

theorem text_takeMagnitude_ne_nil {c : Char} (h : Text.isDigit c = true) (s : Text) :
    (takeMagnitude (c :: s)).1.text ≠ [] := by
  unfold takeMagnitude
  split
  · next d t heq =>
    obtain ⟨rfl, rfl⟩ := List.cons.inj heq
    split
    · simp [Magnitude.text]
    · exact text_takeDecimal_ne_nil h _
  · exact text_takeDecimal_ne_nil h s

/-! ## Values -/

/-- The value of decimal digits of any script, the first one most
    significant. -/
def decimalValue? (digits : Text) : Option Nat :=
  digits.foldlM (fun n c => (Text.decimalValue? c).map (10 * n + ·)) 0

/-- The value of hexadecimal digits. -/
def hexadecimalValue (digits : Text) : Nat :=
  digits.foldl (fun n c => 16 * n + (hexValue? c).getD 0) 0

/-- The length of the decimal digits in front of a text. -/
def digitRun (s : Text) : Nat := (s.takeWhile fun c => (Text.decimalValue? c).isSome).length

/-- The value of the digits of an integer.  The limit on their number holds
    in base ten only, and for the digits up to the first one that is no
    decimal digit. -/
def absolute (magnitude : Magnitude) : Except NumeralError Nat :=
  match magnitude with
  | .hexadecimal _ [] => .error (.notInteger 16 [])
  | .hexadecimal _ digits => .ok (hexadecimalValue digits)
  | .decimal whole _ _ =>
    if digitLimit < digitRun whole then .error (.tooManyDigits (digitRun whole))
    else if whole = [] then .error (.notInteger 10 [])
    else match decimalValue? whole with
      | some n => .ok n
      | none => .error (.notInteger 10 whole)

/-- The integer that a numeral stands for. -/
def integer (n : Numeral) : Except NumeralError Int := do
  let value ← absolute n.magnitude
  return if n.isNegative then -(value : Int) else value

/-- The power of ten that the last digit of the fraction counts. -/
def powerValue? : Option PowerOfTen → Option Int
  | none => some 0
  | some ⟨_, _, []⟩ => none
  | some ⟨_, sign, digits⟩ =>
    (decimalValue? digits).map fun n => if sign = some '-' then -(n : Int) else n

/-- The digits and the power of ten that a decimal numeral stands for; none if
    there are no digits, or not of a decimal system. -/
def scientific? : Magnitude → Option (Nat × Int)
  | .hexadecimal .. => none
  | .decimal whole fraction power => do
    let digits := whole ++ fraction.getD []
    guard (digits ≠ [])
    let value ← decimalValue? digits
    let power ← powerValue? power
    return (value, power - (fraction.getD []).length)

/-- The double-precision number nearest to what a decimal numeral stands
    for. -/
def double (n : Numeral) : Except NumeralError Binary64 :=
  match scientific? n.magnitude with
  | some (digits, power) => .ok (.ofDecimal n.isNegative digits power)
  | none => .error (.notDouble n.text)

end Numeral

end IdlFlow
