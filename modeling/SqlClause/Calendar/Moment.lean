import SqlClause.Calendar.Clock

/-! # Dates with a time of day -/

namespace SqlClause

structure DateTime where
  date : Date
  clock : Clock
  deriving DecidableEq

namespace DateTime

/-- The nanoseconds since the start of the year 2000. -/
def nanoseconds (t : DateTime) : Int := t.date.dayNumber * 86400000000000 + t.clock.nanoseconds

def text (separator : Char) (t : DateTime) : List Char :=
  t.date.text ++ separator :: t.clock.text

/-- The moment so many minutes earlier, within a day of it. -/
def minutesBefore (t : DateTime) (minutes : Int) : DateTime :=
  let total : Int := t.clock.hour * 60 + t.clock.minute - minutes
  let clock := { t.clock with
    hour := ((total % 1440) / 60).toNat
    minute := (total % 60).toNat }
  ⟨if total < 0 then t.date.previous else if 1440 ≤ total then t.date.next else t.date, clock⟩

end DateTime

/-- A moment in universal time. -/
structure Timestamp where
  utc : DateTime
  deriving DecidableEq

/-- The whole microseconds in so many nanoseconds, toward zero. -/
def Calendar.microseconds (nanoseconds : Int) : Int := nanoseconds.tdiv 1000

example : (⟨⟨2024, 1, 1⟩, ⟨0, 30, 0, 0⟩⟩ : DateTime).minutesBefore 120 =
    ⟨⟨2023, 12, 31⟩, ⟨22, 30, 0, 0⟩⟩ := by decide

end SqlClause
