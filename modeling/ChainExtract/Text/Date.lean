import ChainExtract.Text.Numeral

/-!
# Dates

Instants counted in seconds from the start of 1970, written in the proleptic
Gregorian calendar with milliseconds and the mark of universal time.
-/

namespace ChainExtract

/-- A day of the Gregorian calendar; the year before year 1 is year 0. -/
structure CalendarDay where
  year : Int
  month : Nat
  day : Nat
deriving DecidableEq, Repr

namespace CalendarDay

/-- The day that lies `days` days after the first of January 1970. Days are
counted from the first of March of a year divisible by 400, so that each leap
day ends its year. -/
def ofDays (days : Int) : CalendarDay :=
  let shifted := days + 719468
  let era := shifted / 146097
  let dayOfEra := (shifted % 146097).toNat
  let yearOfEra := (dayOfEra - dayOfEra / 1460 + dayOfEra / 36524 - dayOfEra / 146096) / 365
  let dayOfYear := dayOfEra - (365 * yearOfEra + yearOfEra / 4 - yearOfEra / 100)
  let shiftedMonth := (5 * dayOfYear + 2) / 153
  let month := if shiftedMonth < 10 then shiftedMonth + 3 else shiftedMonth - 9
  let year := yearOfEra + era * 400 + (if month ≤ 2 then 1 else 0)
  ⟨year, month, dayOfYear - (153 * shiftedMonth + 2) / 5 + 1⟩

end CalendarDay

/-- An instant of a year that the calendar of dates covers. -/
structure Instant where
  seconds : Int
deriving DecidableEq, Repr

namespace Instant

/-- The instant of a count of seconds, if its year lies between -262143 and 262142. -/
def ofSeconds? (seconds : Int) : Option Instant :=
  if -8334601228800 ≤ seconds ∧ seconds ≤ 8210266876799 then some ⟨seconds⟩ else none

/-- The digits of a number, filled up with zeros to a width. -/
def padded (width n : Nat) : List Char :=
  let digits := Numeral.digits 10 n
  List.replicate (width - digits.length) '0' ++ digits

/-- A year: four digits, with a sign if it lies outside 0 to 9999. -/
def yearText (year : Int) : List Char :=
  let digits := padded 4 year.natAbs
  if year < 0 then '-' :: digits else if 9999 < year then '+' :: digits else digits

/-- The text of an instant. -/
def text (instant : Instant) : String :=
  let day := CalendarDay.ofDays (instant.seconds / 86400)
  let second := (instant.seconds % 86400).toNat
  String.ofList <|
    yearText day.year ++ '-' :: padded 2 day.month ++ '-' :: padded 2 day.day
      ++ 'T' :: padded 2 (second / 3600) ++ ':' :: padded 2 (second / 60 % 60)
      ++ ':' :: padded 2 (second % 60) ++ ".000Z".toList

end Instant

end ChainExtract
