import SqlClause.Column.Path
import SqlClause.Expr.Render

/-! # Typed fields -/

namespace SqlClause

/-- An expression whose SQL values stand for elements of a type. -/
structure Field (α : Type) where
  expr : Expr

namespace Field

variable {α β : Type}

/-- A column of a table, or of no table if its name is empty. -/
def ofColumn (table name : String) : Field α := ⟨.column ((Column.named name).inTable table)⟩

/-- The column that a dotted name stands for. -/
def read (path : String) : Except Error (Field α) := do
  return ⟨.column (← Column.read path)⟩

def arg (x : Field α) : Arg := .expr x.expr

/-- The same column of another table. -/
def inTable (x : Field α) (table : String) : Except Error (Field α) := do
  return ⟨.column ((← x.expr.toColumn).inTable table)⟩

/-- The field under an output name. A column takes the name itself, in place of an earlier one. -/
def renamed (x : Field α) (name : String) : Field α :=
  match x.expr with
  | .column c => ⟨.column (c.renamed name)⟩
  | e => ⟨.aliased e name⟩

/-- A template that takes the field before the other arguments. -/
def apply (x : Field α) (template : String) (rest : List Arg) : Field β :=
  ⟨.template template (x.arg :: rest) false⟩

def ascending (x : Field α) : Expr := .template "? ASC" [x.arg] false

def descending (x : Field α) : Expr := .template "? DESC" [x.arg] false

end Field

end SqlClause
