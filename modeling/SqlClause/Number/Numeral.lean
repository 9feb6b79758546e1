import SqlClause.Number.Shortest

/-! # Decimal numerals -/

namespace SqlClause.Number

/-- `coefficient * 10 ^ exponent` with a sign, which zero keeps as well. -/
structure Numeral where
  negative : Bool
  coefficient : Nat
  exponent : Int
  deriving DecidableEq

/-- The value of a run of digits, read from the left. -/
def valueOf (digits : List Char) : Nat :=
  digits.foldl (fun n d => 10 * n + (d.toNat - '0'.toNat)) 0

def signed : List Char → Bool × List Char
  | '-' :: cs => (true, cs)
  | '+' :: cs => (false, cs)
  | cs => (false, cs)

namespace Numeral

private def exponent? : List Char → Option Int
  | [] => some 0
  | e :: cs =>
    let (negative, digits) := signed cs
    if (e = 'e' ∨ e = 'E') ∧ digits ≠ [] ∧ digits.all Char.isDigit then
      some (if negative then -(valueOf digits : Int) else valueOf digits)
    else none

private def fraction : List Char → List Char × List Char
  | '.' :: cs => (cs.takeWhile Char.isDigit, cs.dropWhile Char.isDigit)
  | cs => ([], cs)

/-- A sign, digits with a point anywhere before, among or after them, and an exponent. Sign, point
and exponent are optional. -/
def read? (cs : List Char) : Option Numeral :=
  let (negative, body) := signed cs
  let whole := body.takeWhile Char.isDigit
  let (places, rest) := fraction (body.dropWhile Char.isDigit)
  if whole ++ places = [] then none
  else (exponent? rest).map fun e => ⟨negative, valueOf (whole ++ places), e - places.length⟩

/-- The magnitude nearest to the numeral without its sign. Outside of four hundred decimal places
around the point every format is infinite or zero. -/
def nearest (F : BinaryFormat) (x : Numeral) : Nat :=
  let top := (Nat.toDigits 10 x.coefficient).length + x.exponent
  if x.coefficient = 0 ∨ top < -400 then 0
  else if 400 < top then F.infinite
  else F.nearest (x.coefficient * Nat.pow 10 x.exponent.toNat) (Nat.pow 10 (-x.exponent).toNat)

end Numeral

example : Numeral.read? "-1.50e3".toList = some ⟨true, 150, 1⟩ := by decide +kernel

example : Numeral.read? ".".toList = none := by decide +kernel

end SqlClause.Number
