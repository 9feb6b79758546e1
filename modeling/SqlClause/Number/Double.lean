import SqlClause.Number.Numeral

/-! # Double and single precision -/

namespace SqlClause

open Number

/-- A double-precision number, given by its bits. -/
structure Double where
  bits : UInt64
  deriving DecidableEq

/-- A single-precision number, given by its bits. -/
structure Single where
  bits : UInt32
  deriving DecidableEq

namespace Number

/-- The bits of a magnitude with a sign. -/
def BinaryFormat.withSign (F : BinaryFormat) (negative : Bool) (magnitude : Nat) : Nat :=
  if negative then F.sign + magnitude else magnitude

/-- The same number in another format, to the nearest; a NaN loses its payload. -/
def BinaryFormat.convert (F G : BinaryFormat) (bits : Nat) : Nat :=
  let magnitude := bits % F.sign
  G.withSign (F.sign ≤ bits) <|
    if F.infinite < magnitude then G.quiet
    else if magnitude = F.infinite then G.infinite
    else
      let (m, q) := F.decode magnitude
      G.nearest (m * Nat.pow 2 q.toNat) (Nat.pow 2 (-q).toNat)

/-- A numeral, or one of the names of the infinities and of NaN with an optional sign. -/
def BinaryFormat.read? (F : BinaryFormat) (cs : List Char) : Option Nat :=
  let (negative, body) := signed cs
  let name := String.ofList (body.map Char.toLower)
  if name = "inf" ∨ name = "infinity" then some (F.withSign negative F.infinite)
  else if name = "nan" then some (F.withSign negative F.quiet)
  else (Numeral.read? cs).map fun x => F.withSign x.negative (x.nearest F)

end Number

namespace Double

def ofNat (bits : Nat) : Double := ⟨.ofNat bits⟩

def negative (x : Double) : Bool := BinaryFormat.double.sign ≤ x.bits.toNat

/-- The number without its sign, as a magnitude. -/
def magnitude (x : Double) : Nat := x.bits.toNat % BinaryFormat.double.sign

def isNaN (x : Double) : Bool := BinaryFormat.double.infinite < x.magnitude

def isFinite (x : Double) : Bool := x.magnitude < BinaryFormat.double.infinite

def digits (tie : Tie) (x : Double) : Digits :=
  ((BinaryFormat.double.interval x.magnitude).shortest tie).digits

/-- Positional notation at every size, and `0` for both zeros except for their sign. -/
def text (x : Double) : List Char :=
  if x.isNaN then ['N', 'a', 'N']
  else
    (if x.negative then ['-'] else []) ++
      if !x.isFinite then ['i', 'n', 'f']
      else if x.magnitude = 0 then ['0']
      else (x.digits .up).positional

def read? (cs : List Char) : Option Double := (BinaryFormat.double.read? cs).map ofNat

def ofInt (n : Int) : Double :=
  ofNat (BinaryFormat.double.withSign (n < 0) (BinaryFormat.double.nearest n.natAbs 1))

/-- The nearest number of single precision. -/
def narrow (x : Double) : Single :=
  ⟨.ofNat (BinaryFormat.double.convert .single x.bits.toNat)⟩

end Double

namespace Single

def widen (x : Single) : Double := .ofNat (BinaryFormat.single.convert .double x.bits.toNat)

def read? (cs : List Char) : Option Single :=
  (BinaryFormat.single.read? cs).map fun bits => ⟨.ofNat bits⟩

end Single

example : (Double.read? "1e-7".toList).map Double.text = some "0.0000001".toList := by decide +kernel

example : (Single.read? "0.1".toList).map (·.widen.text) = some "0.10000000149011612".toList := by
  decide +kernel

end SqlClause
