/-! # Binary floating-point formats

A magnitude is handled as the natural number that its bits below the sign spell. Finite magnitudes
come in the order of their values, and the infinite one follows the largest of them. -/

namespace SqlClause.Number

/-- A format with `fraction` stored bits of the significand and `exponent` bits of the exponent. -/
structure BinaryFormat where
  fraction : Nat
  exponent : Nat
  deriving DecidableEq

namespace BinaryFormat

def single : BinaryFormat := ⟨23, 8⟩

def double : BinaryFormat := ⟨52, 11⟩

/-- The exponent of two that belongs to the last bit of the smallest magnitudes. -/
def least (F : BinaryFormat) : Int := 2 - Nat.pow 2 (F.exponent - 1) - F.fraction

/-- The magnitude of the infinities. -/
def infinite (F : BinaryFormat) : Nat := (Nat.pow 2 F.exponent - 1) * Nat.pow 2 F.fraction

/-- The magnitude of the quiet NaN without payload. -/
def quiet (F : BinaryFormat) : Nat := F.infinite + Nat.pow 2 (F.fraction - 1)

/-- The weight of the sign bit. -/
def sign (F : BinaryFormat) : Nat := Nat.pow 2 (F.fraction + F.exponent)

/-- The value of a finite magnitude as `m * 2 ^ q`. -/
def decode (F : BinaryFormat) (magnitude : Nat) : Nat × Int :=
  let step := magnitude / Nat.pow 2 F.fraction
  let stored := magnitude % Nat.pow 2 F.fraction
  if step = 0 then (stored, F.least) else (Nat.pow 2 F.fraction + stored, F.least + step - 1)

end BinaryFormat

/-- The integer nearest to `num / den`, the even one of two. -/
def roundHalfEven (num den : Nat) : Nat :=
  let whole := num / den
  let rest := 2 * (num % den)
  if rest < den ∨ rest = den ∧ whole % 2 = 0 then whole else whole + 1

/-- The numerator of `(num / den) / 2 ^ q`, the denominator of which is `loweredBy`. -/
def raisedBy (num : Nat) (q : Int) : Nat := num * Nat.pow 2 (-q).toNat

def loweredBy (den : Nat) (q : Int) : Nat := den * Nat.pow 2 q.toNat

/-- The largest `k` with `2 ^ k ≤ num / den`. -/
def binaryOrder (num den : Nat) : Int :=
  let k : Int := num.log2 - den.log2
  if raisedBy num k < loweredBy den k then k - 1 else k

/-- The magnitude nearest to `num / den`, the one with an even significand of two. -/
def BinaryFormat.nearest (F : BinaryFormat) (num den : Nat) : Nat :=
  if num = 0 then 0
  else
    let q := max (binaryOrder num den - F.fraction) F.least
    let m := roundHalfEven (raisedBy num q) (loweredBy den q)
    min ((q - F.least).toNat * Nat.pow 2 F.fraction + m) F.infinite

example : BinaryFormat.double.least = -1074 ∧ BinaryFormat.single.least = -149 := by decide

example : BinaryFormat.double.nearest 3 2 = 0x3ff8000000000000 := by decide

end SqlClause.Number
