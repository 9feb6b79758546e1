/-! # Dates of the proleptic Gregorian calendar -/

namespace SqlClause

namespace Calendar

def isLeap (year : Int) : Bool := year % 4 = 0 ∧ (year % 100 ≠ 0 ∨ year % 400 = 0)

def monthLength (year : Int) (month : Nat) : Nat :=
  if month = 2 then if isLeap year then 29 else 28
  else if month = 4 ∨ month = 6 ∨ month = 9 ∨ month = 11 then 30
  else 31

def firstYear : Int := -262143

def lastYear : Int := 262142

/-- A natural number with zeros in front of it up to a width. -/
def padded (width n : Nat) : List Char :=
  let digits := Nat.toDigits 10 n
  List.replicate (width - digits.length) '0' ++ digits

end Calendar

open Calendar

structure Date where
  year : Int
  month : Nat
  day : Nat
  deriving DecidableEq

namespace Date

def IsValid (d : Date) : Prop :=
  firstYear ≤ d.year ∧ d.year ≤ lastYear ∧ 1 ≤ d.month ∧ d.month ≤ 12 ∧
    1 ≤ d.day ∧ d.day ≤ monthLength d.year d.month

instance (d : Date) : Decidable d.IsValid := by unfold IsValid; infer_instance

def checked (d : Date) : Option Date := if d.IsValid then some d else none

/-- The days from the first day of the year 1 to the first day of the given year. -/
private def daysBefore (year : Int) : Int :=
  let y := year - 1
  365 * y + y / 4 - y / 100 + y / 400

/-- The days of so many months from the first of January. -/
private def daysOfMonths (year : Int) : Nat → Nat
  | 0 => 0
  | months + 1 => daysOfMonths year months + monthLength year (months + 1)

/-- The days since the first of January 2000. -/
def dayNumber (d : Date) : Int :=
  daysBefore d.year - daysBefore 2000 + (daysOfMonths d.year (d.month - 1) + d.day - 1 : Int)

def next (d : Date) : Date :=
  if d.day < monthLength d.year d.month then ⟨d.year, d.month, d.day + 1⟩
  else if d.month < 12 then ⟨d.year, d.month + 1, 1⟩
  else ⟨d.year + 1, 1, 1⟩

def previous (d : Date) : Date :=
  if 1 < d.day then ⟨d.year, d.month, d.day - 1⟩
  else if 1 < d.month then ⟨d.year, d.month - 1, monthLength d.year (d.month - 1)⟩
  else ⟨d.year - 1, 12, 31⟩

/-- A year of more or less than four digits carries a sign. -/
def text (d : Date) : List Char :=
  let year :=
    if 0 ≤ d.year ∧ d.year ≤ 9999 then padded 4 d.year.toNat
    else (if d.year < 0 then '-' else '+') :: padded 4 d.year.natAbs
  year ++ '-' :: padded 2 d.month ++ '-' :: padded 2 d.day

example : (⟨2000, 3, 1⟩ : Date).dayNumber = 60 := by decide

example : (⟨1999, 12, 31⟩ : Date).next = ⟨2000, 1, 1⟩ := by decide

end Date

end SqlClause
