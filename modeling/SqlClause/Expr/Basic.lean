import SqlClause.Column.Basic
import SqlClause.Operator
import SqlClause.Value.Basic

/-! # Expressions -/

namespace SqlClause

mutual

/-- What a placeholder or an operand takes. -/
inductive Arg where
  | value (v : Value)
  | list (vs : List Value)
  /-- An expression that is put in brackets where it needs them. -/
  | expr (e : Expr)
  /-- An expression that is never put in brackets. -/
  | verbatim (e : Expr)

inductive Expr where
  /-- An absent condition. -/
  | empty
  | column (c : Column)
  /-- Text in which question marks stand for arguments; in a flat template none gets brackets. -/
  | template (text : String) (args : List Arg) (flat : Bool)
  | comparison (op : Operator) (left : Expr) (right : Arg)
  | membership (left : Expr) (values : List Arg) (negated : Bool)
  | between (left : Expr) (low high : Arg) (negated : Bool)
  | and (children : List Expr)
  | or (children : List Expr)
  /-- None of the children holds. -/
  | not (children : List Expr)
  | caseWhen (subject : Option Arg) (branches : List (Arg × Arg)) (otherwise : Option Arg)
  | aliased (e : Expr) (name : String)

end

def Arg.isNull : Arg → Bool
  | .value v => v.isNull
  | _ => false

def Arg.expr? : Arg → Option Expr
  | .expr e | .verbatim e => some e
  | _ => none

namespace Expr

def text (sql : String) : Expr := .template sql [] false

def isCase : Expr → Bool
  | .caseWhen _ _ _ => true
  | _ => false

/-- The arguments of a template that is a lone question mark for a single argument. -/
def passed? : Expr → Option (List Arg)
  | .template sql [a] _ => if sql = "?" then some [a] else none
  | _ => none

/-- The arguments that a template writes: one that only passes on its own argument is replaced by
that argument. -/
def effective : List Arg → List Arg
  | [.expr e] => (passed? e).getD [.expr e]
  | [.verbatim e] => (passed? e).getD [.verbatim e]
  | args => args

/-- A comparison named by the spelling of its operator. -/
def compare (spelling : String) (left : Expr) (right : Arg) : Except Error Expr :=
  (Operator.read spelling).map fun op => .comparison op left right

/-- A range that may be open at one end. -/
def range (left : Expr) : Option Arg → Option Arg → Except Error Expr
  | some low, some high => .ok (.between left low high false)
  | some low, none => .ok (.comparison .ge left low)
  | none, some high => .ok (.comparison .le left high)
  | none, none => .error .emptyRange

end Expr

end SqlClause
