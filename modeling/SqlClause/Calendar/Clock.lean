import SqlClause.Calendar.Date

/-! # Times of day -/

namespace SqlClause

open Calendar

/-- A time of day. A leap second is the sixtieth of its minute. -/
structure Clock where
  hour : Nat
  minute : Nat
  second : Nat
  nanosecond : Nat
  deriving DecidableEq

namespace Clock

def IsValid (t : Clock) : Prop :=
  t.hour < 24 ∧ t.minute < 60 ∧ t.second ≤ 60 ∧ t.nanosecond < 1000000000

instance (t : Clock) : Decidable t.IsValid := by unfold IsValid; infer_instance

def checked (t : Clock) : Option Clock := if t.IsValid then some t else none

def nanoseconds (t : Clock) : Nat :=
  ((t.hour * 60 + t.minute) * 60 + t.second) * 1000000000 + t.nanosecond

/-- No digits, three, six or nine, the fewest that lose nothing. -/
def fractionText (nanosecond : Nat) : List Char :=
  if nanosecond = 0 then []
  else if nanosecond % 1000000 = 0 then '.' :: padded 3 (nanosecond / 1000000)
  else if nanosecond % 1000 = 0 then '.' :: padded 6 (nanosecond / 1000)
  else '.' :: padded 9 nanosecond

def text (t : Clock) : List Char :=
  padded 2 t.hour ++ ':' :: padded 2 t.minute ++ ':' :: padded 2 t.second ++
    fractionText t.nanosecond

example : (⟨23, 59, 60, 500000000⟩ : Clock).text = "23:59:60.500".toList := by decide +kernel

end Clock

end SqlClause
