import SqlClause.Expr.Basic

/-! # Negations of expressions -/

namespace SqlClause.Expr

mutual

/-- The expression that holds where this one does not, for expressions that have a form of their
own for it. Groups turn into each other. -/
def negation? : Expr → Option Expr
  | .comparison op left right => some (.comparison op.negated left right)
  | .membership left values negated => some (.membership left values (!negated))
  | .between left low high negated => some (.between left low high (!negated))
  | .and children => some (.or (negations children))
  | .or children => some (.and (negations children))
  | .not children => some (.and children)
  | _ => none

def negations : List Expr → List Expr
  | [] => []
  | c :: cs => (negation? c).getD (.not [c]) :: negations cs

end

end SqlClause.Expr
