import SqlClause.Calendar.Moment
import SqlClause.Json.Basic
import SqlClause.Number.Decimal
import SqlClause.Uuid

/-! # Bound values -/

namespace SqlClause

/-- A scalar that a statement binds. -/
inductive Value where
  | null
  | bool (b : Bool)
  | int (n : Int64)
  | uint (n : UInt64)
  | float (x : Double)
  | text (s : String)
  | bytes (b : List UInt8)
  | date (d : Date)
  | time (t : Clock)
  | dateTime (t : DateTime)
  | timestamp (t : Timestamp)
  | uuid (u : Uuid)
  | json (j : Json)
  | decimal (x : Decimal)

def Value.isNull : Value → Bool
  | .null => true
  | _ => false

@[simp] theorem Value.isNull_iff {v : Value} : v.isNull = true ↔ v = .null := by
  cases v <;> simp [isNull]

/-- Types that have a value for each of their elements. -/
class Bindable (α : Type) where
  toValue : α → Value

export Bindable (toValue)

instance : Bindable Value := ⟨id⟩
instance : Bindable Bool := ⟨.bool⟩
instance : Bindable Int8 := ⟨fun n => .int n.toInt64⟩
instance : Bindable Int16 := ⟨fun n => .int n.toInt64⟩
instance : Bindable Int32 := ⟨fun n => .int n.toInt64⟩
instance : Bindable Int64 := ⟨.int⟩
instance : Bindable UInt16 := ⟨fun n => .uint n.toUInt64⟩
instance : Bindable UInt32 := ⟨fun n => .uint n.toUInt64⟩
instance : Bindable UInt64 := ⟨.uint⟩
instance : Bindable Single := ⟨fun x => .float x.widen⟩
instance : Bindable Double := ⟨.float⟩
instance : Bindable Decimal := ⟨.decimal⟩
instance : Bindable String := ⟨.text⟩
instance : Bindable (List UInt8) := ⟨.bytes⟩
instance : Bindable Date := ⟨.date⟩
instance : Bindable Clock := ⟨.time⟩
instance : Bindable DateTime := ⟨.dateTime⟩
instance : Bindable Timestamp := ⟨.timestamp⟩
instance : Bindable Uuid := ⟨.uuid⟩
instance : Bindable Json := ⟨.json⟩
instance {α : Type} [Bindable α] : Bindable (Option α) := ⟨fun v => (v.map toValue).getD .null⟩

end SqlClause
