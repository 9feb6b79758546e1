import SqlClause.Fragment.Basic

/-! # Groups of operands -/

namespace SqlClause

/-- A fragment that is to be joined with others, and whether it needs brackets there. -/
structure Operand where
  fragment : Fragment
  loose : Bool

namespace Fragment

def addOperand (f : Fragment) (p : Operand) : Fragment :=
  if p.loose then f.bracketed p.fragment else f.append p.fragment

def addJoined (f : Fragment) (separator : List Char) : List Operand → Fragment
  | [] => f
  | [p] => f.addOperand p
  | p :: ps => ((f.addOperand p).write separator).addJoined separator ps

/-- Void operands are dropped. One operand is written as it is and stays as loose as it was; several
are joined in brackets. -/
def addGroup (f : Fragment) (separator : List Char) (operands : List Operand) : Operand :=
  match operands.filter (!·.fragment.isVoid) with
  | [] => ⟨f, false⟩
  | [p] => ⟨f.append p.fragment, p.loose⟩
  | ps => ⟨((f.write ['(']).addJoined separator ps).write [')'], false⟩

end Fragment

end SqlClause
