import SqlClause.Json.Basic

/-! # Numbers of JSON documents

A numeral without fraction and exponent is an integer if it fits in sixty-four bits, with or without
a sign. Any other is the nearest double. -/

namespace SqlClause.Json

open Number

/-- The nearest double, unless the numeral is too large. -/
def real? (x : Numeral) : Option Double :=
  let magnitude := x.nearest .double
  if magnitude < BinaryFormat.double.infinite then
    some (.ofNat (BinaryFormat.double.withSign x.negative magnitude))
  else none

private def wholeDigits? (cs : List Char) : Option (List Char × List Char) :=
  match cs.takeWhile Char.isDigit with
  | [] => none
  | '0' :: _ :: _ => none
  | digits => some (digits, cs.drop digits.length)

private def someDigits? (cs : List Char) : Option (List Char × List Char) :=
  let digits := cs.takeWhile Char.isDigit
  if digits = [] then none else some (digits, cs.drop digits.length)

private def places? : List Char → Option (Option (List Char) × List Char)
  | '.' :: cs => (someDigits? cs).map fun (digits, rest) => (some digits, rest)
  | cs => some (none, cs)

private def power? : List Char → Option (Option Int × List Char)
  | c :: cs =>
    if c = 'e' ∨ c = 'E' then
      let (negative, digits) := signed cs
      (someDigits? digits).map fun (digits, rest) =>
        (some (if negative then -(valueOf digits : Int) else valueOf digits), rest)
    else some (none, c :: cs)
  | [] => some (none, [])

private def integer? (negative : Bool) (value : Nat) : Option Json :=
  if negative then
    if 0 < value ∧ value ≤ UInt64.size / 2 then some (.int (-value)) else none
  else if value < UInt64.size then some (.int value)
  else none

def number? (cs : List Char) : Option (Json × List Char) := do
  let negative := cs.head? = some '-'
  let (whole, rest) ← wholeDigits? (if negative then cs.tail else cs)
  let (places, rest) ← places? rest
  let (power, rest) ← power? rest
  let digits := whole ++ places.getD []
  let exponent := power.getD 0 - (places.getD []).length
  let real := (real? ⟨negative, valueOf digits, exponent⟩).map Json.real
  let number ← match places, power with
    | none, none => integer? negative (valueOf whole) <|> real
    | _, _ => real
  return (number, rest)

/-- Positional notation for up to sixteen digits before the point and five zeros after it, always
with a point; otherwise an exponent. -/
def realText (x : Double) : List Char :=
  let sign := if x.negative then ['-'] else []
  if x.magnitude = 0 then sign ++ ['0', '.', '0']
  else
    let d := x.digits .even
    let body :=
      if -5 < d.point ∧ d.point ≤ 16 then
        if d.digits.length ≤ d.point then d.positional ++ ['.', '0'] else d.positional
      else d.exponential
    sign ++ body

end SqlClause.Json
