import SqlClause.Json.Printer
import SqlClause.Text.Quoted
import SqlClause.Value.Basic

/-! # Literals for logs -/

namespace SqlClause.Value

open Text

private def inQuotes (cs : List Char) : List Char := quoted '\'' cs

def literal : Value → List Char
  | .null => ['N', 'U', 'L', 'L']
  | .bool true => ['T', 'R', 'U', 'E']
  | .bool false => ['F', 'A', 'L', 'S', 'E']
  | .int n => (toString n.toInt).toList
  | .uint n => (toString n.toNat).toList
  | .float x => x.text
  | .text s => inQuotes s.toList
  | .bytes b => 'X' :: '\'' :: ((hexText b).map Char.toUpper ++ ['\''])
  | .date d => inQuotes d.text
  | .time t => inQuotes t.text
  | .dateTime t => inQuotes (t.text ' ')
  | .timestamp t => inQuotes (t.utc.text ' ')
  | .uuid u => inQuotes u.text
  | .json j => inQuotes j.chars
  | .decimal x => x.text

end SqlClause.Value
