/-
`Instant.lean` -- points in time, and their written form.

A point in time is a number of milliseconds since the beginning of 1970. Its date is
that of the Gregorian calendar, extended to all years. A year counts from its first
of March here, so the day that comes and goes is the last one.
-/
import PromptTemplate.Number
import PromptTemplate.Text

set_option autoImplicit false

namespace PromptTemplate

/-- Milliseconds since the beginning of 1970. -/
abbrev Instant := Int

/-- A day of the calendar. -/
structure Date where
  year : Int
  month : Nat
  day : Nat
  deriving DecidableEq, Repr

namespace Instant

/-- How far from 1970 a point in time can lie. -/
def farthest : Rat := 8640000000000000

/-- The point in time that a number of milliseconds means, if it is not too far. A
part of a millisecond is left out. -/
def ofNumber? : Number → Option Instant
  | .finite q => if farthest < q ∨ q < -farthest then none else some (q.num.tdiv q.den)
  | _ => none

/-- The date of a day, counted from the first of March of the year zero. -/
def dateOfDay (day : Int) : Date :=
  let era := day / 146097
  let dayOfEra := (day % 146097).toNat
  let yearOfEra := (dayOfEra - dayOfEra / 1460 + dayOfEra / 36524 - dayOfEra / 146096) / 365
  let dayOfYear := dayOfEra - (365 * yearOfEra + yearOfEra / 4 - yearOfEra / 100)
  let monthFromMarch := (5 * dayOfYear + 2) / 153
  let month := if monthFromMarch < 10 then monthFromMarch + 3 else monthFromMarch - 9
  { year := 400 * era + yearOfEra + (if month ≤ 2 then 1 else 0)
    month := month
    day := dayOfYear - (153 * monthFromMarch + 2) / 5 + 1 }

/-- The milliseconds of a day. -/
def dayLength : Int := 86400000

/-- The date of a point in time. -/
def date (t : Instant) : Date := dateOfDay (t / dayLength + 719468)

/-- A year: four digits, or a sign and six digits. -/
def yearText (year : Int) : Text :=
  if 0 ≤ year ∧ year ≤ 9999 then Text.paddedNat 4 year.toNat
  else units (if year < 0 then "-" else "+") ++ Text.paddedNat 6 year.natAbs

/-- The written form of a point in time. -/
def toText (t : Instant) : Text :=
  let date := t.date
  let inDay := (t % dayLength).toNat
  yearText date.year ++ units "-" ++ Text.paddedNat 2 date.month ++ units "-"
    ++ Text.paddedNat 2 date.day
    ++ units "T" ++ Text.paddedNat 2 (inDay / 3600000) ++ units ":"
    ++ Text.paddedNat 2 (inDay / 60000 % 60)
    ++ units ":" ++ Text.paddedNat 2 (inDay / 1000 % 60) ++ units "."
    ++ Text.paddedNat 3 (inDay % 1000)
    ++ units "Z"

end Instant

end PromptTemplate
