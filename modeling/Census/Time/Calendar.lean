import Census.Time.Instant

/-!
# Dates and times of day

Instants are written as dates of the Gregorian calendar, extended to all years, in universal time.
The count of days starts on the first of March of the year 0, so that the leap day is the last day
of a year.
-/

namespace Census

/-- A date of the Gregorian calendar. The year before 1 is 0, and the one before that is -1. -/
structure Date where
  year : Int
  month : Nat
  day : Nat
deriving DecidableEq

namespace Date

/-- The date that lies `days` after the first of January 1970. -/
def ofDays (days : Int) : Date :=
  let d := days + 719468
  let era := d / 146097
  let ofEra := (d % 146097).toNat
  let yearOfEra := (ofEra - ofEra / 1460 + ofEra / 36524 - ofEra / 146096) / 365
  let ofYear := ofEra - (365 * yearOfEra + yearOfEra / 4 - yearOfEra / 100)
  let sinceMarch := (5 * ofYear + 2) / 153
  let day := ofYear - (153 * sinceMarch + 2) / 5 + 1
  let month := if sinceMarch < 10 then sinceMarch + 3 else sinceMarch - 9
  let year := era * 400 + yearOfEra
  { year := if month ≤ 2 then year + 1 else year, month, day }

/-- Years 0 to 9999 have four digits; all others carry a sign before at least four digits. -/
def yearText (y : Int) : String :=
  if 0 ≤ y ∧ y ≤ 9999 then Numeral.padded 4 y.toNat
  else (if y < 0 then "-" else "+") ++ Numeral.padded 4 y.natAbs

def text (d : Date) : String :=
  yearText d.year ++ "-" ++ Numeral.padded 2 d.month ++ "-" ++ Numeral.padded 2 d.day

end Date

namespace Instant

def date (i : Instant) : Date := Date.ofDays (i.seconds / 86400)

/-- Hours, minutes and seconds of the day. -/
def timeOfDay (i : Instant) : String :=
  (Span.ofSeconds (i.seconds % 86400).toNat).clock

/-- The fraction of a second with as few groups of three digits as hold it, or nothing. -/
def fractionText (i : Instant) : String :=
  let n := i.subsecond
  if n = 0 then ""
  else if n % 1000000 = 0 then "." ++ Numeral.padded 3 (n / 1000000)
  else if n % 1000 = 0 then "." ++ Numeral.padded 6 (n / 1000)
  else "." ++ Numeral.padded 9 n

/-- The timestamp form of RFC 3339, with the offset of universal time. -/
def timestamp (i : Instant) : String :=
  i.date.text ++ "T" ++ i.timeOfDay ++ i.fractionText ++ "+00:00"

end Instant
end Census
