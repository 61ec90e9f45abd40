/-!
# Dates and moments

Dates of the proleptic Gregorian calendar from year 1 to year 9999, and moments of a day with an
optional offset from universal time.

* `Date`, `Date.ofDays?`: dates, and the date a number of days after 1970-01-01
* `Moment`, `Moment.ofMillis?`: moments, and the moment a number of milliseconds after 1970
* `Date.iso`, `Moment.iso`: their texts
-/

namespace GuestCode

/-- A date. -/
structure Date where
  year : Nat
  month : Nat
  day : Nat
deriving Repr, DecidableEq, Inhabited

/-- A moment of a day, to the microsecond; the offset is in seconds east of universal time. -/
structure Moment where
  date : Date
  hour : Nat
  minute : Nat
  second : Nat
  microsecond : Nat
  offset : Option Int
deriving Repr, DecidableEq, Inhabited

/-- A number in decimal digits, with zeros before it up to a given width. -/
def padded (width n : Nat) : String :=
  let digits := toString n
  String.ofList (List.replicate (width - digits.length) '0') ++ digits

namespace Date

/-- Whether a year has a leap day. -/
def isLeap (year : Nat) : Bool :=
  year % 4 == 0 && (year % 100 != 0 || year % 400 == 0)

/-- The number of days of a month. -/
def daysInMonth (year month : Nat) : Nat :=
  match month with
  | 2 => if isLeap year then 29 else 28
  | 4 | 6 | 9 | 11 => 30
  | _ => 31

/-- Whether a date exists. -/
def isValid (d : Date) : Bool :=
  1 ≤ d.year && d.year ≤ 9999 && 1 ≤ d.month && d.month ≤ 12 && 1 ≤ d.day &&
    d.day ≤ daysInMonth d.year d.month

/-- The date a number of days after 1970-01-01, if its year is between 1 and 9999. The count runs
in eras of 400 years that start on the first of March. -/
def ofDays? (days : Int) : Option Date :=
  let z := days + 719468
  let era := z.fdiv 146097
  let dayOfEra := z.fmod 146097
  let yearOfEra := (dayOfEra - dayOfEra / 1460 + dayOfEra / 36524 - dayOfEra / 146096) / 365
  let dayOfYear := dayOfEra - (365 * yearOfEra + yearOfEra / 4 - yearOfEra / 100)
  let shifted := (5 * dayOfYear + 2) / 153
  let day := dayOfYear - (153 * shifted + 2) / 5 + 1
  let month := if shifted < 10 then shifted + 3 else shifted - 9
  let year := yearOfEra + era * 400 + (if month ≤ 2 then 1 else 0)
  if 1 ≤ year ∧ year ≤ 9999 then some ⟨year.toNat, month.toNat, day.toNat⟩ else none

/-- The text of a date, such as `2024-01-02`. -/
def iso (d : Date) : String :=
  padded 4 d.year ++ "-" ++ padded 2 d.month ++ "-" ++ padded 2 d.day

end Date

namespace Moment

/-- The moment a number of milliseconds after the start of 1970, universal time. -/
def ofMillis? (millis : Int) : Option Moment :=
  let days := millis.fdiv 86400000
  let rest := (millis.fmod 86400000).toNat
  (Date.ofDays? days).map fun date =>
    ⟨date, rest / 3600000, rest / 60000 % 60, rest / 1000 % 60, rest % 1000 * 1000, some 0⟩

/-- The text of an offset, such as `+05:30`; seconds are written if there are any. -/
def offsetText (offset : Int) : String :=
  let n := offset.natAbs
  (if offset < 0 then "-" else "+") ++ padded 2 (n / 3600) ++ ":" ++ padded 2 (n / 60 % 60) ++
    (if n % 60 = 0 then "" else ":" ++ padded 2 (n % 60))

/-- The time of day and the offset of a moment; microseconds are written if there are any. -/
def timeText (m : Moment) : String :=
  padded 2 m.hour ++ ":" ++ padded 2 m.minute ++ ":" ++ padded 2 m.second ++
    (if m.microsecond = 0 then "" else "." ++ padded 6 m.microsecond) ++
    (m.offset.map offsetText).getD ""

/-- The text of a moment, such as `2024-01-02T10:00:00+00:00`. -/
def iso (m : Moment) : String := m.date.iso ++ "T" ++ m.timeText

end Moment

end GuestCode
