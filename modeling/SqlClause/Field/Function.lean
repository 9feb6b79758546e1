import SqlClause.Calendar.Duration
import SqlClause.Field.Basic

/-! # Functions of fields -/

namespace SqlClause.Field

section Any

variable {α : Type}

def count (x : Field α) : Field Int64 := x.apply "COUNT(?)" []

def distinct (x : Field α) : Field α := x.apply "DISTINCT ?" []

def ifNull (x : Field α) (otherwise : Arg) : Field α := x.apply "IFNULL(?, ?)" [otherwise]

end Any

def complement (x : Field Bool) : Field Bool := x.apply "NOT ?" []

/-! ## Text -/

def upper (x : Field String) : Field String := x.apply "UPPER(?)" []

def lower (x : Field String) : Field String := x.apply "LOWER(?)" []

def length (x : Field String) : Field Int64 := x.apply "CHAR_LENGTH(?)" []

def trim (x : Field String) : Field String := x.apply "TRIM(?)" []

def concat (x : Field String) (other : Arg) : Field String := x.apply "CONCAT(?, ?)" [other]

def replace (x : Field String) (old new : String) : Field String :=
  x.apply "REPLACE(?, ?, ?)" [.value (toValue old), .value (toValue new)]

/-- Positions count from one. -/
def substring (x : Field String) (position count : Int64) : Field String :=
  x.apply "SUBSTRING(?, ?, ?)" [.value (toValue position), .value (toValue count)]

/-- The position in a list whose items are separated by commas. -/
def findInSet (x : Field String) (set : String) : Field Int64 :=
  x.apply "FIND_IN_SET(?, ?)" [.value (toValue set)]

/-! ## Dates and times -/

def date (x : Field DateTime) : Field Date := x.apply "DATE(?)" []

def year (x : Field DateTime) : Field Int64 := x.apply "YEAR(?)" []

def month (x : Field DateTime) : Field Int64 := x.apply "MONTH(?)" []

def day (x : Field DateTime) : Field Int64 := x.apply "DAY(?)" []

def hour (x : Field DateTime) : Field Int64 := x.apply "HOUR(?)" []

def minute (x : Field DateTime) : Field Int64 := x.apply "MINUTE(?)" []

def second (x : Field DateTime) : Field Int64 := x.apply "SECOND(?)" []

def unixTime (x : Field DateTime) : Field Int64 := x.apply "UNIX_TIMESTAMP(?)" []

def ofUnixTime (x : Field Int64) : Field DateTime := x.apply "FROM_UNIXTIME(?)" []

def dateText (x : Field DateTime) (format : String) : Field String :=
  x.apply "DATE_FORMAT(?, ?)" [.value (toValue format)]

def later (x : Field DateTime) (d : Duration) : Field DateTime :=
  x.apply "DATE_ADD(?, INTERVAL ? MICROSECOND)" [.value (toValue d.microseconds)]

def earlier (x : Field DateTime) (d : Duration) : Field DateTime :=
  x.apply "DATE_SUB(?, INTERVAL ? MICROSECOND)" [.value (toValue d.microseconds)]

def now : Field DateTime := ⟨.text "NOW()"⟩

def currentTimestamp : Field DateTime := ⟨.text "CURRENT_TIMESTAMP"⟩

end SqlClause.Field
