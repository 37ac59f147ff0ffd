/-
  The time in the header of a declaration file: weekday, date, time of day and
  the offset and name of the time zone.

  The calendar has the years 1 to 9999.  Parts that make no time of it are
  refused (`localTime?`); a time so close to its ends that finding the offset
  leads out of it has no timestamp (`text?`).  An offset is less than a day
  either way.
-/
import IdlFlow.Number.Decimal

namespace IdlFlow

/-- A local time. -/
structure LocalTime where
  year : Nat
  month : Nat
  day : Nat
  hour : Nat
  minute : Nat
  second : Nat
  deriving DecidableEq, Repr

/-- A time zone by its name and its offset in seconds to the east. -/
structure TimeZone where
  name : Text
  offset : Int
  deriving DecidableEq, Repr

/-- Universal time. -/
def TimeZone.universal : TimeZone := ⟨"UTC", 0⟩

/-- Why there is no time, or no timestamp of it. -/
inductive TimeError
  /-- A part of the time is no signed number of 32 bits. -/
  | width
  | year (n : Int)
  | month
  | day
  | hour
  | minute
  | second
  /-- The offset is a day or more. -/
  | offset (seconds : Int)
  /-- The universal time is not in the calendar. -/
  | universal
  deriving DecidableEq, Repr

def daySeconds : Int := 86400

/-- A span of time of a day or more as whole days, back from zero for a
    negative one, and the seconds that are left if there are any. -/
def spanText (seconds : Int) : Text :=
  let rest := Int.fmod seconds daySeconds
  let restText : Text := if rest = 0 then [] else ", seconds=" ++ Decimal.numeral rest
  "datetime.timedelta(days=" ++ Decimal.numeral (Int.fdiv seconds daySeconds) ++ restText ++ ")"

def TimeError.message : TimeError → Text
  | width => "part of a time out of range"
  | year n => "year " ++ Decimal.numeral n ++ " is out of range"
  | month => "month must be in 1..12"
  | day => "day is out of range for month"
  | hour => "hour must be in 0..23"
  | minute => "minute must be in 0..59"
  | second => "second must be in 0..59"
  | offset seconds =>
    "offset must be a timedelta strictly between -timedelta(hours=24) and " ++
      "timedelta(hours=24), not " ++ spanText seconds ++ "."
  | universal => "date value out of range"

namespace Timestamp

def weekdays : List Text := ["Sun", "Mon", "Tue", "Wed", "Thu", "Fri", "Sat"]

def months : List Text :=
  ["Jan", "Feb", "Mar", "Apr", "May", "Jun", "Jul", "Aug", "Sep", "Oct", "Nov", "Dec"]

/-- Days before each month of a common year. -/
def daysBefore : List Nat := [0, 31, 59, 90, 120, 151, 181, 212, 243, 273, 304, 334]

def isLeap (year : Nat) : Bool := year % 4 = 0 && (year % 100 ≠ 0 || year % 400 = 0)

/-- The number of a day in the Gregorian calendar; day 1 begins the year 1. -/
def dayNumber (t : LocalTime) : Nat :=
  let past := t.year - 1
  365 * past + past / 4 - past / 100 + past / 400 + daysBefore.getD (t.month - 1) 0 +
    (if 2 < t.month && isLeap t.year then 1 else 0) + t.day

/-- The number of days in a month. -/
def monthLength (year month : Nat) : Nat :=
  if month = 2 then if isLeap year then 29 else 28
  else if [4, 6, 9, 11].contains month then 30
  else 31

/-- The day of the week; the first day of the year 1 was a Monday. -/
def weekday (t : LocalTime) : Nat := dayNumber t % 7

/-- Two digits. -/
def two (n : Nat) : Text := (Decimal.digits n).leftpad 2 '0'

/-- An offset as sign, hours and minutes, and seconds if there are any. -/
def offsetText (offset : Int) : Text :=
  let seconds := offset.natAbs
  (if offset < 0 then "-" else "+") ++ two (seconds / 3600) ++ two (seconds / 60 % 60) ++
    (if seconds % 60 = 0 then [] else two (seconds % 60))

def text (t : LocalTime) (zone : TimeZone) : Text :=
  weekdays.getD (weekday t) [] ++ " " ++ months.getD (t.month - 1) [] ++ " " ++ two t.day ++ " " ++
    Decimal.digits t.year ++ " " ++ two t.hour ++ ":" ++ two t.minute ++ ":" ++ two t.second ++
    " GMT" ++ offsetText zone.offset ++ " (" ++ zone.name ++ ")"

/-! ## The ends of the calendar -/

def lastYear : Nat := 9999

/-- Whether a number is a signed one of 32 bits. -/
def fits (n : Int) : Bool := -2147483648 ≤ n && n ≤ 2147483647

/-- The local time of given parts, if the calendar has it.  The width of all
    parts matters first, then each part in order. -/
def localTime? (year month day hour minute second : Int) : Except TimeError LocalTime :=
  if [year, month, day, hour, minute, second].any (fun n => !fits n) then .error .width
  else if year < 1 ∨ lastYear < year then .error (.year year)
  else if month < 1 ∨ 12 < month then .error .month
  else if day < 1 ∨ monthLength year.toNat month.toNat < day then .error .day
  else if hour < 0 ∨ 23 < hour then .error .hour
  else if minute < 0 ∨ 59 < minute then .error .minute
  else if second < 0 ∨ 59 < second then .error .second
  else .ok ⟨year.toNat, month.toNat, day.toNat, hour.toNat, minute.toNat, second.toNat⟩

/-- The seconds from the beginning of day 0. -/
def seconds (t : LocalTime) : Int :=
  daySeconds * dayNumber t + 3600 * t.hour + 60 * t.minute + t.second

/-- The second that begins a year. -/
def yearSeconds (year : Nat) : Int := seconds ⟨year, 1, 1, 0, 0, 0⟩

/-- The timestamp of a time.  To find the offset, the clock is read when
    universal time shows what is now local time, and a day before, since it
    could have been set back; then the offset, if it is one, is taken off.
    All this must stay in the calendar. -/
def text? (t : LocalTime) (zone : TimeZone) : Except TimeError Text :=
  if seconds t + min zone.offset (-daySeconds) < yearSeconds 1 then .error (.year 0)
  else if yearSeconds (lastYear + 1) ≤ seconds t + zone.offset then .error (.year (lastYear + 1))
  else if daySeconds ≤ zone.offset.natAbs then .error (.offset zone.offset)
  else if yearSeconds (lastYear + 1) ≤ seconds t - zone.offset then .error .universal
  else .ok (text t zone)

end Timestamp

end IdlFlow
