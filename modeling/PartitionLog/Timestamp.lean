/-!
# Timestamps as text

A timestamp counts milliseconds from the start of 1970, in days of 86400 seconds, and prints as a
date of the Gregorian calendar and a time of day, in UTC and to the second below it.
-/
namespace PartitionLog.Timestamp

structure Date where
  year : Int
  month : Nat
  day : Nat
  deriving DecidableEq, Repr

/-- The date `days` after the first of January 1970. The count runs in eras of 400 years that start
in March, so that the leap day is the last day of a year. -/
def Date.ofDays (days : Int) : Date :=
  let shifted := days + 719468
  let era := Int.fdiv shifted 146097
  let dayOfEra := (Int.fmod shifted 146097).toNat
  let yearOfEra := (dayOfEra - dayOfEra / 1460 + dayOfEra / 36524 - dayOfEra / 146096) / 365
  let dayOfYear := dayOfEra - (365 * yearOfEra + yearOfEra / 4 - yearOfEra / 100)
  let monthFromMarch := (5 * dayOfYear + 2) / 153
  let day := dayOfYear - (153 * monthFromMarch + 2) / 5 + 1
  let month := if monthFromMarch < 10 then monthFromMarch + 3 else monthFromMarch - 9
  let year := era * 400 + yearOfEra + (if month ≤ 2 then 1 else 0)
  ⟨year, month, day⟩

def padded (width n : Nat) : String :=
  String.ofList (List.replicate (width - n.repr.length) '0') ++ n.repr

/-- Four digits at least, and a sign for a year that is negative or needs more. -/
def yearText (year : Int) : String :=
  if 0 ≤ year ∧ year ≤ 9999 then padded 4 year.toNat
  else (if year < 0 then "-" else "+") ++ padded 4 year.natAbs

/-! A date can be told from the first day of the least year to the last day of the greatest. -/

def minYear : Int := -262143
def maxYear : Int := 262142

/-- `YYYY-MM-DD HH:MM:SS`, and nothing for a date that cannot be told. -/
def format (millis : Int64) : String :=
  let seconds := Int.fdiv millis.toInt 1000
  let date := Date.ofDays (Int.fdiv seconds 86400)
  let time := (Int.fmod seconds 86400).toNat
  if date.year < minYear ∨ maxYear < date.year then ""
  else
    yearText date.year ++ "-" ++ padded 2 date.month ++ "-" ++ padded 2 date.day ++ " " ++
      padded 2 (time / 3600) ++ ":" ++ padded 2 (time / 60 % 60) ++ ":" ++ padded 2 (time % 60)

end PartitionLog.Timestamp
