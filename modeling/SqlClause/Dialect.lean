import SqlClause.Text.Quoted

/-! # Dialects -/

namespace SqlClause

/-- How a dialect quotes identifiers and writes the placeholder of a numbered parameter. -/
structure Dialect where
  name : String
  quote : Char
  quoted : List Char → List Char := Text.quoted quote
  placeholder : Nat → List Char

namespace Dialect

def mysql : Dialect where
  name := "mysql"
  quote := '\x60'
  placeholder _ := ['?']

def postgres : Dialect where
  name := "postgres"
  quote := '"'
  placeholder index := '$' :: Nat.toDigits 10 index

def sqlite : Dialect where
  name := "sqlite"
  quote := '"'
  placeholder _ := ['?']

/-- Placeholders that are a fixed text followed by the number of the parameter. -/
def numbered (name : String) (quote : Char) (lead : String) : Dialect where
  name := name
  quote := quote
  placeholder index := lead.toList ++ Nat.toDigits 10 index

end Dialect

end SqlClause
