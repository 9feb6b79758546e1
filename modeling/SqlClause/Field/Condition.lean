import SqlClause.Field.Basic

/-! # Conditions on fields -/

namespace SqlClause.Field

variable {α : Type}

def compare (x : Field α) (op : Operator) (right : Arg) : Expr := .comparison op x.expr right

def compareField (x : Field α) (op : Operator) (y : Field α) : Expr := x.compare op y.arg

def isNull (x : Field α) : Expr := x.compare .eq (.value .null)

def isNotNull (x : Field α) : Expr := x.compare .ne (.value .null)

/-- A condition on a value that may be absent, and no condition if it is. -/
def optional {β : Type} (condition : β → Expr) (v : Option β) : Expr :=
  (v.map condition).getD .empty

section Values

variable [Bindable α]

def compareValue (x : Field α) (op : Operator) (v : α) : Expr := x.compare op (.value (toValue v))

def isIn (x : Field α) (vs : List α) : Expr :=
  .membership x.expr (vs.map fun v => .value (toValue v)) false

def notIn (x : Field α) (vs : List α) : Expr :=
  .membership x.expr (vs.map fun v => .value (toValue v)) true

def between (x : Field α) (low high : α) : Expr :=
  .between x.expr (.value (toValue low)) (.value (toValue high)) false

def notBetween (x : Field α) (low high : α) : Expr :=
  .between x.expr (.value (toValue low)) (.value (toValue high)) true

/-- The values in a range that may be open at both ends. -/
def betweenOptional (x : Field α) : Option α → Option α → Expr
  | some low, some high => x.between low high
  | some low, none => x.compareValue .ge low
  | none, some high => x.compareValue .le high
  | none, none => .empty

/-- The values outside of a range that may be open at both ends. -/
def notBetweenOptional (x : Field α) : Option α → Option α → Expr
  | some low, some high => x.notBetween low high
  | some low, none => x.compareValue .lt low
  | none, some high => x.compareValue .gt high
  | none, none => .empty

end Values

def like (x : Field String) (pattern : String) : Expr := x.compareValue .like pattern

def notLike (x : Field String) (pattern : String) : Expr := x.compareValue .notLike pattern

def matchesRegexp (x : Field String) (pattern : String) : Expr :=
  .template "? REGEXP ?" [x.arg, .value (toValue pattern)] false

def isTrue (x : Field Bool) : Expr := x.compareValue .eq true

def isFalse (x : Field Bool) : Expr := x.compareValue .eq false

end SqlClause.Field
