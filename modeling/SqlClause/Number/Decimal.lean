import SqlClause.Number.Numeral

/-! # Exact decimals -/

namespace SqlClause

/-- Coefficients have ninety-six bits. -/
def Decimal.limit : Nat := 79228162514264337593543950336

/-- `coefficient / 10 ^ scale` with a sign, which zero can have as well. The scale is part of the
value: `1.5` and `1.50` differ. -/
structure Decimal where
  negative : Bool
  coefficient : Nat
  scale : Nat
  coefficient_lt : coefficient < Decimal.limit
  scale_le : scale ≤ 28
  deriving DecidableEq

namespace Decimal

open Number

/-- The decimal of these parts if it exists. Zero loses its sign. -/
def ofParts? (negative : Bool) (coefficient scale : Nat) : Option Decimal :=
  if h : coefficient < limit ∧ scale ≤ 28 then
    some ⟨negative && coefficient != 0, coefficient, scale, h.1, h.2⟩
  else none

/-- The digits after the place at which a coefficient is full or its scale at its largest. The first
of them decides: a five rounds up, and a coefficient that grows too large by it gives up a place. -/
private def rounded? (coefficient scale : Nat) (rest : List Char) : Option (Nat × Nat) :=
  let isUp : Bool := rest.head?.any fun c => c.isDigit && '5' ≤ c
  if !rest.all fun c => c.isDigit || c = '_' then none
  else if !isUp then some (coefficient, scale)
  else if coefficient + 1 < limit then some (coefficient + 1, scale)
  else if scale = 0 then none
  else some ((coefficient + 5) / 10, scale - 1)

/-- Whether a coefficient was near the end of sixty-four bits before its last digit. -/
private def isWide (coefficient : Nat) : Bool := UInt64.size / 10 - 255 ≤ coefficient / 10

/-- Digits with at most one point and with underscores after the first digit. An underscore in the
place that decides about rounding counts as a zero there, except that a wide coefficient skips it. -/
private def unsigned? (started point : Bool) (coefficient scale : Nat) :
    List Char → Option (Nat × Nat)
  | [] => if started then some (coefficient, scale) else none
  | c :: cs =>
    if point ∧ 28 ≤ scale then
      if c = '_' ∧ isWide coefficient then unsigned? started point coefficient scale cs
      else rounded? coefficient scale (c :: cs)
    else if c.isDigit then
      let grown := 10 * coefficient + valueOf [c]
      if grown < limit then unsigned? true point grown (if point then scale + 1 else scale) cs
      else if point then rounded? coefficient scale (c :: cs)
      else none
    else if c = '.' ∧ !point then unsigned? started true coefficient scale cs
    else if c = '_' ∧ started then unsigned? started point coefficient scale cs
    else none

private def plain? (cs : List Char) : Option (Bool × Nat × Nat) :=
  let (negative, body) := signed cs
  (unsigned? false false 0 0 body).map (negative, ·)

private def natural? (cs : List Char) : Option Nat :=
  let digits := if cs.head? = some '+' then cs.tail else cs
  if digits ≠ [] ∧ digits.all Char.isDigit then some (valueOf digits) else none

/-- The decimal with more places, of which those beyond the largest scale are rounded away, a half
away from zero. The sign stays, also if nothing else does. -/
private def lowered? (x : Decimal) (places : Nat) : Option Decimal :=
  if 28 < places then none
  else
    let excess := x.scale + places - 28
    let coefficient :=
      if excess = 0 then x.coefficient else (x.coefficient / Nat.pow 10 (excess - 1) + 5) / 10
    if h : coefficient < limit then
      some ⟨x.negative, coefficient, min (x.scale + places) 28, h, Nat.min_le_right _ _⟩
    else none

/-- A positive exponent takes places away, and an integer without places is left when there are too
few of them. -/
private def raised? (x : Decimal) (places : Nat) : Option Decimal :=
  if places ≤ x.scale then
    some { x with scale := x.scale - places, scale_le := Nat.le_trans (Nat.sub_le _ _) x.scale_le }
  else if 28 < places then none
  else ofParts? x.negative (x.coefficient * Nat.pow 10 (places - x.scale)) 0

/-- A plain numeral with an exponent of at most 28 in size. -/
private def exponential? (cs : List Char) : Option Decimal := do
  let isMark (c : Char) : Bool := c = 'e' ∨ c = 'E'
  let (negative, coefficient, scale) ← plain? (cs.takeWhile (!isMark ·))
  let x ← ofParts? negative coefficient scale
  match (cs.dropWhile (!isMark ·)).tail with
  | '-' :: digits => lowered? x (← natural? digits)
  | digits => raised? x (← natural? digits)

def read? (cs : List Char) : Option Decimal :=
  match plain? cs with
  | some (negative, coefficient, scale) => ofParts? negative coefficient scale
  | none => exponential? cs

def ofInt? (n : Int) : Option Decimal := ofParts? (n < 0) n.natAbs 0

/-- All places of the scale are written, and at least one digit before the point. -/
def text (x : Decimal) : List Char :=
  let digits := Nat.toDigits 10 x.coefficient
  let padded := List.replicate (x.scale + 1 - digits.length) '0' ++ digits
  let whole := padded.take (padded.length - x.scale)
  let places := padded.drop (padded.length - x.scale)
  (if x.negative then ['-'] else []) ++ whole ++ if places = [] then [] else '.' :: places

example : (read? "-1.50".toList).map text = some "-1.50".toList := by decide +kernel

example : (read? "-0.4e-28".toList).map text = some "-0.0000000000000000000000000000".toList := by
  decide +kernel

example : (read? "1.5e3".toList).map text = some "1500".toList := by decide +kernel

end Decimal

end SqlClause
