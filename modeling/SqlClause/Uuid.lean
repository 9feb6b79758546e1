import SqlClause.Text.Hex

/-! # Universally unique identifiers -/

namespace SqlClause

structure Uuid where
  bits : BitVec 128
  deriving DecidableEq

namespace Uuid

open Text

def bytes (u : Uuid) : List UInt8 := bigEndian 16 u.bits.toNat

/-- Lower-case digits in groups of eight, four, four, four and twelve. -/
def text (u : Uuid) : List Char :=
  let digits := hexText u.bytes
  let group (start length : Nat) := (digits.drop start).take length
  group 0 8 ++ '-' :: group 8 4 ++ '-' :: group 12 4 ++ '-' :: group 16 4 ++ '-' :: group 20 12

private def simple? (cs : List Char) : Option Uuid :=
  if cs.length = 32 then (hexNumber? cs).map fun n => ⟨.ofNat 128 n⟩ else none

private def hyphenated? (cs : List Char) : Option Uuid :=
  let isHyphen (i : Nat) : Bool := cs[i]? = some '-'
  if cs.length = 36 ∧ isHyphen 8 ∧ isHyphen 13 ∧ isHyphen 18 ∧ isHyphen 23 then
    simple? (cs.filter (· ≠ '-'))
  else none

private def braces? : List Char → Option (List Char)
  | '\x7b' :: cs => if cs.getLast? = some '\x7d' then some cs.dropLast else none
  | _ => none

private def urn? (cs : List Char) : Option (List Char) :=
  if String.ofList ((cs.take 9).map Char.toLower) = "urn:uuid:" then some (cs.drop 9) else none

/-- The digits alone, or with hyphens between the groups; the hyphenated form may stand in braces
or after `urn:uuid:`. Letters are of either case. -/
def read? (cs : List Char) : Option Uuid :=
  simple? cs <|> hyphenated? (((braces? cs) <|> urn? cs).getD cs)

example : (read? "67E55044-10B1-426F-9247-BB680E5FE0C8".toList).map text =
    some "67e55044-10b1-426f-9247-bb680e5fe0c8".toList := by decide +kernel

end Uuid

end SqlClause
