import SqlClause.Json.Printer
import SqlClause.Value.Basic

/-! # The binary wire format of values -/

namespace SqlClause

/-- The column types that the wire format knows. -/
inductive WireType where
  | bool
  | int2
  | int4
  | int8
  | float4
  | float8
  | text
  | bytea
  | date
  | time
  | timestamp
  | timestamptz
  | uuid
  | json
  | jsonb
  | numeric
  deriving DecidableEq

namespace Wire

open Text

/-- Whether two's complement in so many bytes has the number. -/
def fitsIn (width : Nat) (n : Int) : Bool :=
  let bound : Int := Nat.pow 2 (8 * width - 1)
  n < bound ∧ -bound ≤ n

/-- Two's complement in so many bytes, the highest of them first. -/
def twosComplement (width : Nat) (n : Int) : List UInt8 :=
  bigEndian width (n % Nat.pow 2 (8 * width)).toNat

/-- The width in which an integer is sent. -/
def integerWidth : WireType → Nat
  | .int2 => 2
  | .int4 => 4
  | _ => 8

def integer (type : WireType) (n : Int) : Option (List UInt8) :=
  if fitsIn (integerWidth type) n then some (twosComplement (integerWidth type) n) else none

def float (type : WireType) (x : Double) : List UInt8 :=
  if type = .float4 then bigEndian 4 x.narrow.bits.toNat else bigEndian 8 x.bits.toNat

/-- The digits of a number in base ten thousand, the highest first. -/
def groups (n : Nat) : List Nat :=
  if n = 0 then [] else groups (n / 10000) ++ [n % 10000]

private def dropZeros (gs : List Nat) : List Nat := (gs.reverse.dropWhile (· = 0)).reverse

/-- The number of groups, the weight of the first, the sign, the scale, and the groups. Groups of
zeros at the end are left out if they stand after the point and a group stands before it. -/
def numeric (x : Decimal) : List UInt8 :=
  if x.coefficient = 0 then bigEndian 8 0
  else
    let after := (x.scale + 3) / 4
    let all := groups (x.coefficient * Nat.pow 10 (4 * after - x.scale))
    let kept :=
      if after < all.length then
        all.take (all.length - after) ++ dropZeros (all.drop (all.length - after))
      else all
    bigEndian 2 kept.length ++ twosComplement 2 ((all.length : Int) - after - 1) ++
      bigEndian 2 (if x.negative then 0x4000 else 0) ++ bigEndian 2 x.scale ++
      kept.flatMap (bigEndian 2)

private def moment (t : DateTime) : List UInt8 :=
  twosComplement 8 (Calendar.microseconds t.nanoseconds)

private def utf8 (cs : List Char) : List UInt8 := cs.flatMap String.utf8EncodeChar

/-- The bytes of a value, of which null has none, unless it is an integer out of range. -/
def bytes (type : WireType) : Value → Option (List UInt8)
  | .null => some []
  | .bool b => some [if b then 1 else 0]
  | .int n => integer type n.toInt
  | .uint n => if n.toNat < UInt64.size / 2 then integer type n.toNat else none
  | .float x => some (float type x)
  | .text s => some (utf8 s.toList)
  | .bytes b => some b
  | .date d => some (twosComplement 4 d.dayNumber)
  | .time t => some (twosComplement 8 (Calendar.microseconds t.nanoseconds))
  | .dateTime t => some (moment t)
  | .timestamp t => some (moment t.utc)
  | .uuid u => some u.bytes
  | .json j => some ((if type = .jsonb then [1] else []) ++ utf8 j.chars)
  | .decimal x => some (numeric x)

end Wire

/-- How an attempt to send a value ended. -/
inductive Sending where
  | null
  | sent
  | outOfRange
  deriving DecidableEq

/-- Appends the bytes of a value to a buffer. Nothing is appended for null, nor for an integer that
is out of range. -/
def Value.send (type : WireType) (v : Value) (buffer : List UInt8) : Sending × List UInt8 :=
  if v.isNull then (.null, buffer)
  else
    match Wire.bytes type v with
    | some body => (.sent, buffer ++ body)
    | none => (.outOfRange, buffer)

example : Wire.numeric ⟨true, 12345678, 3, by decide, by decide⟩ =
    [0, 3, 0, 1, 0x40, 0, 0, 3, 0, 1, 9, 41, 26, 124] := by decide +kernel

end SqlClause
