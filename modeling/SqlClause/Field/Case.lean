import SqlClause.Field.Basic

/-! # Cases with a typed result -/

namespace SqlClause

/-- A case with its branches in order, at least one. With a subject the conditions are values to
compare it with. -/
structure Case (α : Type) where
  subject : Option Arg
  first : Arg × Arg
  more : List (Arg × Arg)

namespace Case

variable {α : Type}

def branches (c : Case α) : List (Arg × Arg) := c.first :: c.more

def otherwise (c : Case α) (result : Arg) : Field α :=
  ⟨.caseWhen c.subject c.branches (some result)⟩

/-- The result is null where no condition holds. -/
def finish (c : Case α) : Field α := ⟨.caseWhen c.subject c.branches none⟩

end Case

end SqlClause
