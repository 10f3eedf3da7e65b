/-!
# Times and dates

A time is a number of seconds since the start of 1970 and a fraction of a second; seconds are
counted down before that start.  Dates follow the Gregorian calendar in universal time, without a
first or a last year.  A calendar that keeps a date in a machine word has both, about 262,000 years
before and after the year 0; for times beyond them it has no answer, where there is one here.

## Main definitions

* `Timestamp`: a time to the nanosecond.
* `CivilDate.ofDays`: the date of a day.
* `Timestamp.version`: date and time as a version number.
* `Timestamp.httpDate`: date and time as the hypertext protocol writes them.

## Main results

* `later_eq_or`: the later of two times is one of them.
-/

namespace ScriptBundle

/-- A time: whole seconds since the start of 1970, and nanoseconds to add. -/
structure Timestamp where
  seconds : Int := 0
  nanos : Nat := 0
  deriving DecidableEq, Repr, Inhabited

namespace Timestamp

/-- The start of 1970. -/
def epoch : Timestamp := {}

/-- Times are ordered by their seconds, then by their nanoseconds. -/
instance : Ord Timestamp where
  compare a b := (compare a.seconds b.seconds).then (compare a.nanos b.nanos)

/-- The later of two times. -/
def later (a b : Timestamp) : Timestamp := if (compare a b).isLE then b else a

theorem later_eq_or (a b : Timestamp) : later a b = a ∨ later a b = b := by
  unfold later
  split
  · exact .inr rfl
  · exact .inl rfl

end Timestamp

/-- A date of the Gregorian calendar; the year may be zero or negative. -/
structure CivilDate where
  year : Int
  month : Nat
  day : Nat
  deriving DecidableEq, Repr

/-- The date that lies a number of days after the first of January 1970.  Years are counted from
March on, so that a leap day ends its year; 400 years have 146097 days, and the months from March
on have 153 days for every five. -/
def CivilDate.ofDays (days : Int) : CivilDate :=
  let shifted := days + 719468
  let era := shifted / 146097
  let dayOfEra := (shifted % 146097).toNat
  let yearOfEra := (dayOfEra - dayOfEra / 1460 + dayOfEra / 36524 - dayOfEra / 146096) / 365
  let dayOfYear := dayOfEra - (365 * yearOfEra + yearOfEra / 4 - yearOfEra / 100)
  let month := (5 * dayOfYear + 2) / 153
  let year := era * 400 + yearOfEra
  if month < 10 then ⟨year, month + 3, dayOfYear - (153 * month + 2) / 5 + 1⟩
  else ⟨year + 1, month - 9, dayOfYear - (153 * month + 2) / 5 + 1⟩

namespace Timestamp

/-- The days since the start of 1970. -/
def days (t : Timestamp) : Int := t.seconds / 86400

/-- The seconds since the start of the day. -/
def secondOfDay (t : Timestamp) : Nat := (t.seconds % 86400).toNat

/-- The date of a time. -/
def date (t : Timestamp) : CivilDate := .ofDays t.days

/-- A number with at least `width` digits. -/
def padded (width n : Nat) : List Char :=
  let digits := Nat.toDigits 10 n
  List.replicate (width - digits.length) '0' ++ digits

/-- A year with at least four digits; it has a sign unless it lies between 0 and 9999. -/
def yearText (year : Int) : List Char :=
  if year < 0 then '-' :: padded 4 year.natAbs
  else if 9999 < year then '+' :: padded 4 year.natAbs
  else padded 4 year.natAbs

/-- The hour, the minute and the second, with `separator` between them. -/
def clockText (t : Timestamp) (separator : List Char) : List Char :=
  let s := t.secondOfDay
  padded 2 (s / 3600) ++ separator ++ padded 2 (s / 60 % 60) ++ separator ++ padded 2 (s % 60)

/-- Date and time as a version number, as in `20240229.235959`.  Every time has one, also those that lie
beyond the years of a bounded calendar. -/
def version (t : Timestamp) : List Char :=
  let d := t.date
  yearText d.year ++ padded 2 d.month ++ padded 2 d.day ++ '.' :: t.clockText []

/-- The short names of the days of the week, from the first day of 1970 on. -/
def weekdayNames : List String := ["Thu", "Fri", "Sat", "Sun", "Mon", "Tue", "Wed"]

/-- The short names of the months. -/
def monthNames : List String :=
  ["Jan", "Feb", "Mar", "Apr", "May", "Jun", "Jul", "Aug", "Sep", "Oct", "Nov", "Dec"]

/-- Date and time as the hypertext protocol writes them, as in `Thu, 29 Feb 2024 23:59:59 GMT`. -/
def httpDate (t : Timestamp) : List Char :=
  let d := t.date
  let weekday := weekdayNames.getD (t.days % 7).toNat ""
  let month := monthNames.getD (d.month - 1) ""
  weekday.toList ++ [',', ' '] ++ padded 2 d.day ++ ' ' :: month.toList ++ ' ' :: yearText d.year
    ++ ' ' :: t.clockText [':'] ++ " GMT".toList

end Timestamp

end ScriptBundle
