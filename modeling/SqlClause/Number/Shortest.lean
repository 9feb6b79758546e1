import SqlClause.Number.Binary

/-! # The shortest decimal digits of a binary number

A finite magnitude is read back from every decimal in its interval: the numbers nearer to it than
to its neighbours, and its two midpoints as well if its significand is even. The digits written are
the fewest that stand for a number of the interval, and of those the nearest. -/

namespace SqlClause.Number

/-- Which of two equally near candidates is written. -/
inductive Tie where
  | up
  | even
  deriving DecidableEq

/-- `coefficient * 10 ^ exponent` -/
structure Scientific where
  coefficient : Nat
  exponent : Int
  deriving DecidableEq

/-- The decimal interval of a magnitude: `lower / den`, `value / den`, `upper / den`. -/
structure Interval where
  lower : Nat
  value : Nat
  upper : Nat
  den : Nat
  closed : Bool

/-- Everything in units of a quarter of the last place, since the gap below a power of two is half
as wide as the gap above it. -/
def BinaryFormat.interval (F : BinaryFormat) (magnitude : Nat) : Interval :=
  let (m, q) := F.decode magnitude
  let below := if m = Nat.pow 2 F.fraction ∧ F.least < q then 1 else 2
  let unit := Nat.pow 2 (q - 2).toNat
  ⟨(4 * m - below) * unit, 4 * m * unit, (4 * m + 2) * unit, Nat.pow 2 (2 - q).toNat, m % 2 = 0⟩

namespace Interval

/-- The same interval in units of `10 ^ j`. -/
def rescale (I : Interval) (j : Int) : Interval :=
  let up := Nat.pow 10 (-j).toNat
  ⟨I.lower * up, I.value * up, I.upper * up, I.den * Nat.pow 10 j.toNat, I.closed⟩

def contains (I : Interval) (d : Nat) : Bool :=
  if I.closed then I.lower ≤ d * I.den ∧ d * I.den ≤ I.upper
  else I.lower < d * I.den ∧ d * I.den < I.upper

/-- The integer nearest to the value. -/
def nearest (tie : Tie) (I : Interval) : Nat :=
  let whole := I.value / I.den
  let rest := 2 * (I.value % I.den)
  if rest < I.den ∨ rest = I.den ∧ tie = .even ∧ whole % 2 = 0 then whole else whole + 1

/-- The nearer of the two integers beside the value that the interval contains. -/
def hit? (tie : Tie) (I : Interval) : Option Nat :=
  let whole := I.value / I.den
  match I.contains whole, I.contains (whole + 1) with
  | true, true => some (I.nearest tie)
  | true, false => some whole
  | false, true => some (whole + 1)
  | false, false => none

/-- The number of digits before the point; zero and less count the zeros after it. -/
def order (I : Interval) : Int :=
  if I.den ≤ I.value then (Nat.toDigits 10 (I.value / I.den)).length
  else
    let inverse := (I.den + I.value - 1) / I.value
    1 - ((Nat.toDigits 10 (inverse - 1)).length : Int)

/-- Seventeen digits tell all doubles apart. -/
def shortest (tie : Tie) (I : Interval) : Scientific :=
  let top := I.order
  let grid (n : Nat) : Int := top - (n + 1)
  match (List.range 17).findSome? fun n => ((I.rescale (grid n)).hit? tie).map (·, grid n) with
  | some (d, j) => ⟨d, j⟩
  | none => ⟨(I.rescale (grid 16)).nearest tie, grid 16⟩

end Interval

/-- The digits of a nonzero number without zeros at the end, and the place of the point among them:
the number is `0.d₁d₂… * 10 ^ point`. -/
structure Digits where
  digits : List Char
  point : Int
  deriving DecidableEq

def Scientific.digits (x : Scientific) : Digits :=
  let all := Nat.toDigits 10 x.coefficient
  ⟨(all.reverse.dropWhile (· = '0')).reverse, all.length + x.exponent⟩

namespace Digits

/-- Positional notation, without a point if there is nothing after it. -/
def positional (x : Digits) : List Char :=
  if x.point ≤ 0 then ['0', '.'] ++ List.replicate (-x.point).toNat '0' ++ x.digits
  else if x.digits.length ≤ x.point then
    x.digits ++ List.replicate (x.point - x.digits.length).toNat '0'
  else x.digits.take x.point.toNat ++ ['.'] ++ x.digits.drop x.point.toNat

/-- One digit before the point, and an exponent that always has a sign. -/
def exponential (x : Digits) : List Char :=
  let mantissa := match x.digits with
    | d :: e :: rest => d :: '.' :: e :: rest
    | ds => ds
  let exponent := x.point - 1
  mantissa ++ 'e' :: (if exponent < 0 then '-' else '+') :: Nat.toDigits 10 exponent.natAbs

end Digits

example : (BinaryFormat.double.interval 1).shortest .up = ⟨5, -324⟩ := by decide +kernel

example : (⟨['1', '5'], 1⟩ : Digits).positional = ['1', '.', '5'] := by decide

example : (⟨['1', '5'], 17⟩ : Digits).exponential = "1.5e+16".toList := by decide +kernel

end SqlClause.Number
