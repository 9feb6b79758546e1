import SqlClause.Expr.Writer
import SqlClause.Statement

/-! # Statements from expressions -/

namespace SqlClause

namespace Expr

/-- The expression in a fragment of its own. -/
def fragment (e : Expr) (d : Dialect) : Fragment := (e.write (.blank d)).fragment

def statement (e : Expr) (d : Dialect) : Statement := (e.fragment d).finish

def isAtomic (e : Expr) : Bool := (e.fragment .mysql).isAtomic

/-- The column that an expression is. A template without arguments that is a call counts as a raw
column. -/
def toColumn (e : Expr) : Except Error Column :=
  match e with
  | .column c => .ok c
  | .template sql [] _ =>
    if Atom.isCall sql.toList then .ok (.verbatim sql) else .error (refusal e)
  | e => .error (refusal e)
where
  refusal (e : Expr) : Error := .notAColumn (String.ofList (e.statement .mysql).sql)

end Expr

/-- What is logged about statements. -/
inductive LogEvent where
  | rendered (dialect : String) (params : Nat) (sql : List Char)
  | invalid (error : Error) (sql : List Char)

/-- The dialect of statements, and the number of bytes to which their text is cut in the log. -/
structure Rendering where
  dialect : Dialect := .mysql
  room : Option Nat := some 200

namespace Rendering

def statement (r : Rendering) (e : Expr) : Statement := e.statement r.dialect

/-- The event for a statement just rendered. -/
def event (r : Rendering) (s : Statement) : LogEvent :=
  let sql := match r.room with
    | some room => Text.abridged room s.sql
    | none => s.sql
  .rendered r.dialect.name s.params.length sql

end Rendering

/-- The event for a statement that lacks values. -/
def Statement.warning? (s : Statement) : Option LogEvent :=
  match s.validate with
  | .ok _ => none
  | .error e => some (.invalid e s.sql)

end SqlClause
