import SqlClause.Expr.Weight
import SqlClause.Fragment.Group

/-! # Writing expressions into fragments

Arguments and the members of groups are written into blank fragments of the same dialect where their
text decides about brackets. -/

namespace SqlClause

namespace Fragment

def writeString (f : Fragment) (s : String) : Fragment := f.write s.toList

/-- A list in brackets of its own. -/
def bindBracketed (f : Fragment) (vs : List Value) : Fragment :=
  if vs.isEmpty then f.writeString "(NULL)" else ((f.write ['(']).bindAll vs).write [')']

/-- A list within brackets that are already there. -/
def bindFlat (f : Fragment) (vs : List Value) : Fragment :=
  if vs.isEmpty then f.bind .null else f.bindAll vs

/-- A negated operand for which there is no other form. -/
def addRefused (f : Fragment) (g : Fragment) (whole : Bool) : Fragment :=
  if g.isVoid then f
  else if whole then (f.writeString "NOT ").append g
  else (f.writeString "NOT ").appendOperand g

end Fragment

mutual

def Arg.write (mode : Mode) (a : Arg) (f : Fragment) : Fragment :=
  match mode, a with
  | .surplus, .value v => f.supply v
  | _, .value v => f.bind v
  | .surplus, .list vs => f.supplyAll vs
  | .flat, .list vs => f.bindFlat vs
  | _, .list vs => f.bindBracketed vs
  | .surplus, .expr e => f.supplyAll (e.write (.blank f.dialect)).fragment.params
  | .surplus, .verbatim e => f.supplyAll (e.write (.blank f.dialect)).fragment.params
  | .operand, .expr e =>
    if e.isCase then (e.write f).fragment
    else f.appendOperand (e.write (.blank f.dialect)).fragment
  | _, .expr e => (e.write f).fragment
  | _, .verbatim e => (e.write f).fragment
termination_by (a.weight, 0)
decreasing_by all_goals simp only [Arg.weight, Prod.lex_def]; omega

def Step.writeAll (steps : List Step) (f : Fragment) : Fragment :=
  match steps with
  | [] => f
  | .text cs :: rest => Step.writeAll rest (f.write cs)
  | .name name :: rest => Step.writeAll rest (f.writeName name)
  | .column c :: rest => Step.writeAll rest (f.writeColumn c)
  | .arg mode a :: rest => Step.writeAll rest (a.write mode f)
termination_by (Step.weights steps, steps.length)
decreasing_by
  all_goals
    simp only [Step.weights_cons, Step.weight, List.length_cons, Prod.lex_def]
    omega

/-- The fragment with the expression at its end, and whether the expression needs brackets among
other operands. -/
def Expr.write (e : Expr) (f : Fragment) : Operand :=
  match e with
  | .and children => f.addGroup " AND ".toList (Expr.writeAll children f.dialect)
  | .or children => f.addGroup " OR ".toList (Expr.writeAll children f.dialect)
  | .not children => f.addGroup " AND ".toList (Expr.refuseAll children f.dialect)
  | e => ⟨Step.writeAll e.steps f, e.isLoose⟩
termination_by (e.weight, 0)
decreasing_by
  · simp only [Expr.weight, Prod.lex_def]; omega
  · simp only [Expr.weight, Prod.lex_def]; omega
  · simp only [Expr.weight, Prod.lex_def]; omega
  · have := Expr.weights_steps_lt e
    simp only [Prod.lex_def]
    omega

/-- Each expression in a fragment of its own. -/
def Expr.writeAll (es : List Expr) (d : Dialect) : List Operand :=
  match es with
  | [] => []
  | e :: es => e.write (.blank d) :: Expr.writeAll es d
termination_by (Expr.weights es, es.length)
decreasing_by all_goals simp only [Expr.weights, List.length_cons, Prod.lex_def]; omega

/-- The negation of each expression in a fragment of its own. -/
def Expr.refuseAll (es : List Expr) (d : Dialect) : List Operand :=
  match es with
  | [] => []
  | e :: es =>
    (match _h : e.negation? with
      | some n => n.write (.blank d)
      | none => ⟨(Fragment.blank d).addRefused (e.write (.blank d)).fragment e.isCase, false⟩) ::
      Expr.refuseAll es d
termination_by (3 * Expr.weights es, es.length)
decreasing_by
  · have := Expr.weight_le_of_negation? _h
    simp only [Expr.weights, List.length_cons, Prod.lex_def]
    omega
  · simp only [Expr.weights, List.length_cons, Prod.lex_def]; omega
  · simp only [Expr.weights, List.length_cons, Prod.lex_def]; omega

end

end SqlClause
