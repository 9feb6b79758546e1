import SqlClause.Error
import SqlClause.Text.Blank

/-! # Comparison operators -/

namespace SqlClause

inductive Operator where
  | eq
  | ne
  | gt
  | ge
  | lt
  | le
  | like
  | notLike
  | isIn
  | notIn
  deriving DecidableEq

namespace Operator

def spelling : Operator → String
  | .eq => "="
  | .ne => "<>"
  | .gt => ">"
  | .ge => ">="
  | .lt => "<"
  | .le => "<="
  | .like => "LIKE"
  | .notLike => "NOT LIKE"
  | .isIn => "IN"
  | .notIn => "NOT IN"

/-- The operator that holds where this one does not. -/
def negated : Operator → Operator
  | .eq => .ne
  | .ne => .eq
  | .gt => .le
  | .le => .gt
  | .ge => .lt
  | .lt => .ge
  | .like => .notLike
  | .notLike => .like
  | .isIn => .notIn
  | .notIn => .isIn

@[simp] theorem negated_negated (op : Operator) : op.negated.negated = op := by cases op <;> rfl

def ofWords? : List String → Option Operator
  | ["="] => some .eq
  | ["<>"] => some .ne
  | ["!="] => some .ne
  | [">"] => some .gt
  | [">="] => some .ge
  | ["<"] => some .lt
  | ["<="] => some .le
  | ["LIKE"] => some .like
  | ["NOT", "LIKE"] => some .notLike
  | ["IN"] => some .isIn
  | ["NOT", "IN"] => some .notIn
  | _ => none

/-- The case of ASCII letters and the blanks around words do not matter. -/
def read (s : String) : Except Error Operator :=
  let words := (Text.words s.toList).map fun w => String.ofList (w.map Char.toUpper)
  match ofWords? words with
  | some op => .ok op
  | none => .error (.unknownOperator s)

example : (read " not\u3000Like ").toOption = some .notLike := by decide +kernel

end Operator

end SqlClause
