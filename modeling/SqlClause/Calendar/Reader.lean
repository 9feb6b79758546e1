import SqlClause.Calendar.Moment
import SqlClause.Number.Numeral
import SqlClause.Text.Blank

/-! # Reading dates and times

Blanks may stand before every number and every separator and at the end, but not before a point nor
before the letter or space between the date and the time of a timestamp. -/

namespace SqlClause

namespace Calendar

open Number Text

private def number? (width : Nat) (cs : List Char) : Option (Nat × List Char) :=
  let digits := (cs.take width).takeWhile Char.isDigit
  if digits = [] then none else some (valueOf digits, cs.drop digits.length)

private def part? (cs : List Char) : Option (Nat × List Char) := number? 2 (trimLeft cs)

/-- Four digits at most, or any number of digits after a sign. -/
private def year? (cs : List Char) : Option (Int × List Char) :=
  match trimLeft cs with
  | '-' :: rest => (number? rest.length rest).map fun (n, rest) => (-(n : Int), rest)
  | '+' :: rest => (number? rest.length rest).map fun (n, rest) => ((n : Int), rest)
  | rest => (number? 4 rest).map fun (n, rest) => ((n : Int), rest)

private def mark? (c : Char) (cs : List Char) : Option (List Char) :=
  match trimLeft cs with
  | d :: rest => if d = c then some rest else none
  | [] => none

/-- The first nine digits after a point count. -/
private def fraction? : List Char → Option (Nat × List Char)
  | '.' :: cs =>
    let digits := cs.takeWhile Char.isDigit
    let kept := digits.take 9
    if digits = [] then none
    else some (valueOf kept * Nat.pow 10 (9 - kept.length), cs.drop digits.length)
  | cs => some (0, cs)

private def date? (cs : List Char) : Option (Date × List Char) := do
  let (year, cs) ← year? cs
  let (month, cs) ← part? (← mark? '-' cs)
  let (day, cs) ← part? (← mark? '-' cs)
  let date ← Date.checked ⟨year, month, day⟩
  return (date, cs)

private def seconds? (cs : List Char) : Option ((Nat × Nat) × List Char) := do
  let (second, cs) ← part? (← mark? ':' cs)
  let (nanosecond, cs) ← fraction? cs
  return ((second, nanosecond), cs)

private def minutes? (cs : List Char) : Option ((Nat × Nat) × List Char) := do
  let (hour, cs) ← part? cs
  let (minute, cs) ← part? (← mark? ':' cs)
  return ((hour, minute), cs)

private def clock? (cs : List Char) : Option (Clock × List Char) := do
  let ((hour, minute), cs) ← minutes? cs
  let ((second, nanosecond), cs) ← seconds? cs
  let clock ← Clock.checked ⟨hour, minute, second, nanosecond⟩
  return (clock, cs)

private def ended (cs : List Char) : Bool := (trimLeft cs).isEmpty

private def twoDigits? : List Char → Option (Nat × List Char)
  | a :: b :: rest => if a.isDigit ∧ b.isDigit then some (valueOf [a, b], rest) else none
  | _ => none

/-- An offset from universal time in minutes: `Z`, `UTC`, or a sign, hours and minutes. -/
private def offset? (cs : List Char) : Option (Int × List Char) := do
  if String.ofList ((cs.take 3).map Char.toUpper) = "UTC" then return (0, cs.drop 3)
  let (negative, rest) ← match cs with
    | '+' :: rest => some (false, rest)
    | '-' :: rest => some (true, rest)
    | '\u2212' :: rest => some (true, rest)
    | c :: rest => if c.toUpper = 'Z' then return (0, rest) else none
    | [] => none
  let (hours, rest) ← twoDigits? rest
  let (minutes, rest) ← twoDigits? (rest.dropWhile fun c => c = ':' ∨ isBlank c)
  guard (hours < 24 ∧ minutes < 60)
  let total : Int := hours * 60 + minutes
  return (if negative then -total else total, rest)

end Calendar

open Calendar

def Date.read? (cs : List Char) : Option Date := do
  let (date, rest) ← date? cs
  guard (ended rest)
  return date

/-- The seconds may be left out. -/
def Clock.read? (cs : List Char) : Option Clock := do
  let ((hour, minute), rest) ← minutes? cs
  let ((second, nanosecond), rest) := (seconds? rest).getD ((0, 0), rest)
  guard (ended rest)
  Clock.checked ⟨hour, minute, second, nanosecond⟩

def DateTime.read? (cs : List Char) : Option DateTime := do
  let (date, rest) ← date? cs
  let (clock, rest) ← clock? (← mark? 'T' rest)
  guard (ended rest)
  return ⟨date, clock⟩

/-- A date, a letter `T` or a space, a time and an offset from universal time. -/
def Timestamp.read? (cs : List Char) : Option Timestamp := do
  let (date, rest) ← date? cs
  let separator ← rest.head?
  guard (separator = 'T' ∨ separator = 't' ∨ separator = ' ')
  let (clock, rest) ← clock? rest.tail
  let (offset, rest) ← offset? (Text.trimLeft rest)
  guard (ended rest)
  let utc := DateTime.minutesBefore ⟨date, clock⟩ offset
  let date ← utc.date.checked
  return ⟨⟨date, utc.clock⟩⟩

example : (Timestamp.read? "2024-01-02T03:04:05+02:00".toList).map (·.utc.text ' ') =
    some "2024-01-02 01:04:05".toList := by decide +kernel

example : Date.read? "2023-02-29".toList = none := by decide +kernel

end SqlClause
