/-!
Moments of the proleptic Gregorian calendar in universal time.

A moment is counted in seconds from the start of 1970. The calendar repeats every 400 years, which are
146097 days; within them a year is taken to begin with March, so that a leap day comes last.
-/

namespace Reckon

/-- A day of the calendar. -/
structure Date where
  year : Int
  month : Nat
  day : Nat
deriving Repr, DecidableEq

namespace Date

/-- The number of days from the start of 1970 to a date. -/
def toDays (d : Date) : Int :=
  let y : Int := if d.month ≤ 2 then d.year - 1 else d.year
  let era := y.fdiv 400
  let yearOfEra := y - era * 400
  let monthFromMarch : Int := (d.month + 9) % 12
  let dayOfYear := (153 * monthFromMarch + 2) / 5 + d.day - 1
  let dayOfEra := yearOfEra * 365 + yearOfEra / 4 - yearOfEra / 100 + dayOfYear
  era * 146097 + dayOfEra - 719468

/-- The date so many days after the start of 1970. -/
def ofDays (days : Int) : Date :=
  let shifted := days + 719468
  let era := shifted.fdiv 146097
  let dayOfEra := (shifted - era * 146097).toNat
  let yearOfEra := (dayOfEra - dayOfEra / 1460 + dayOfEra / 36524 - dayOfEra / 146096) / 365
  let dayOfYear := dayOfEra - (365 * yearOfEra + yearOfEra / 4 - yearOfEra / 100)
  let monthFromMarch := (5 * dayOfYear + 2) / 153
  let month := if monthFromMarch < 10 then monthFromMarch + 3 else monthFromMarch - 9
  { year := (yearOfEra : Int) + era * 400 + if month ≤ 2 then 1 else 0
    month
    day := dayOfYear - (153 * monthFromMarch + 2) / 5 + 1 }

/-- The number of the day in its year, from one. -/
def ordinal (d : Date) : Nat := (d.toDays - toDays ⟨d.year, 1, 1⟩ + 1).toNat

/-- The number of days since Sunday. -/
def daysFromSunday (d : Date) : Nat := ((d.toDays + 4).fmod 7).toNat

/-- The number of days since Monday. -/
def daysFromMonday (d : Date) : Nat := ((d.toDays + 3).fmod 7).toNat

/-- The number of the week, where the first begins with the first Sunday of the year. -/
def weekFromSunday (d : Date) : Nat := (d.ordinal + 6 - d.daysFromSunday) / 7

/-- The number of the week, where the first begins with the first Monday of the year. -/
def weekFromMonday (d : Date) : Nat := (d.ordinal + 6 - d.daysFromMonday) / 7

/-- The year and number of the week that begins with Monday and counts to the year that most of its
days are in: that of its Thursday. -/
def isoWeek (d : Date) : Int × Nat :=
  let thursday := ofDays (d.toDays - d.daysFromMonday + 3)
  (thursday.year, (thursday.ordinal - 1) / 7 + 1)

end Date

/-- A second of universal time. -/
structure Moment where
  epoch : Int
  date : Date
  hour : Nat
  minute : Nat
  second : Nat
deriving Repr, DecidableEq

namespace Moment

/-- The first second that has a date. -/
def first : Int := -8334601228800

/-- The last second that has a date. -/
def last : Int := 8210266876799

/-- The moment so many seconds after the start of 1970, within the range of years from -262143 to
262142. -/
def ofEpoch? (epoch : Int) : Option Moment :=
  if first ≤ epoch ∧ epoch ≤ last then
    let second := (epoch.fmod 86400).toNat
    some
      { epoch
        date := .ofDays (epoch.fdiv 86400)
        hour := second / 3600
        minute := second / 60 % 60
        second := second % 60 }
  else none

/-- The hour on a clock of twelve. -/
def hour12 (m : Moment) : Nat := if m.hour % 12 = 0 then 12 else m.hour % 12

end Moment
end Reckon
