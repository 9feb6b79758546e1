import SqlClause.Calendar.Reader
import SqlClause.Json.Printer
import SqlClause.Value.Basic

/-! # Values as tagged JSON

A value is written as an object with one field, the name of which is the kind of the value. The
null value is its name alone. Floating-point numbers and documents are written as text. -/

namespace SqlClause.Value

private def content? {α : Type} (read? : List Char → Option α) : Json → Option α
  | .text s => read? s.toList
  | _ => none

private def integer? : Json → Option Int
  | .int n => some n
  | _ => none

private def within (low high : Int) (n : Int) : Option Int :=
  if low ≤ n ∧ n ≤ high then some n else none

private def double? : Json → Option Double
  | .int n => some (.ofInt n)
  | .real x => some x
  | j => content? Double.read? j

private def bytes? : Json → Option (List UInt8)
  | .array items => items.mapM fun j => do
    return UInt8.ofNat (← within 0 255 (← integer? j)).toNat
  | _ => none

private def decimal? : Json → Option Decimal
  | .int n => Decimal.ofInt? n
  | .real x => Decimal.read? x.text
  | j => content? Decimal.read? j

def ofTagged? : Json → Option Value
  | .text "Null" => some .null
  | .object [("Null", .null)] => some .null
  | .object [("Bool", .bool b)] => some (.bool b)
  | .object [("Int", .int n)] => (within Int64.minValue.toInt Int64.maxValue.toInt n).map (.int <| .ofInt ·)
  | .object [("UInt", .int n)] => (within 0 (UInt64.size - 1) n).map (.uint <| .ofNat ·.toNat)
  | .object [("Float", j)] => (double? j).map .float
  | .object [("Text", .text s)] => some (.text s)
  | .object [("Bytes", j)] => (bytes? j).map .bytes
  | .object [("Date", j)] => (content? Date.read? j).map .date
  | .object [("Time", j)] => (content? Clock.read? j).map .time
  | .object [("DateTime", j)] => (content? DateTime.read? j).map .dateTime
  | .object [("Timestamp", j)] => (content? Timestamp.read? j).map .timestamp
  | .object [("Uuid", j)] => (content? Uuid.read? j).map .uuid
  | .object [("Json", j)] => some (.json j)
  | .object [("Decimal", j)] => (decimal? j).map .decimal
  | _ => none

private def field (kind : String) (content : Json) : Json := .object [(kind, content)]

private def chars (kind : String) (content : List Char) : Json :=
  field kind (.text (String.ofList content))

def tagged : Value → Json
  | .null => .text "Null"
  | .bool b => field "Bool" (.bool b)
  | .int n => field "Int" (.int n.toInt)
  | .uint n => field "UInt" (.int n.toNat)
  | .float x => chars "Float" x.text
  | .text s => field "Text" (.text s)
  | .bytes b => field "Bytes" (.array (b.map fun x => .int x.toNat))
  | .date d => chars "Date" d.text
  | .time t => chars "Time" t.text
  | .dateTime t => chars "DateTime" (t.text 'T')
  | .timestamp t => chars "Timestamp" (t.utc.text 'T' ++ ['Z'])
  | .uuid u => chars "Uuid" u.text
  | .json j => chars "Json" j.chars
  | .decimal x => chars "Decimal" x.text

end SqlClause.Value
