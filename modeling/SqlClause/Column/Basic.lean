/-! # Columns -/

namespace SqlClause

/-- A column with an optional table and an optional output name. The name of a raw column is
written as it is. -/
structure Column where
  table : Option String := none
  name : String
  label : Option String := none
  raw : Bool := false
  deriving DecidableEq

namespace Column

def named (name : String) : Column := { name }

def verbatim (name : String) : Column := { name, raw := true }

def star : Column := verbatim "*"

/-- An empty name removes the table. -/
def inTable (c : Column) (table : String) : Column :=
  { c with table := if table = "" then none else some table }

def renamed (c : Column) (label : String) : Column := { c with label := some label }

end Column

end SqlClause
