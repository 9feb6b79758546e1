/-! # Quoted text -/

namespace SqlClause.Text

/-- Every occurrence of the quote character is written twice. -/
def doubled (quote : Char) : List Char → List Char
  | [] => []
  | c :: cs => if c = quote then quote :: quote :: doubled quote cs else c :: doubled quote cs

def quoted (quote : Char) (cs : List Char) : List Char :=
  quote :: (doubled quote cs ++ [quote])

@[simp] theorem doubled_append (quote : Char) (xs ys : List Char) :
    doubled quote (xs ++ ys) = doubled quote xs ++ doubled quote ys := by
  induction xs with
  | nil => rfl
  | cons c cs ih => simp only [doubled, List.cons_append, ih]; split <;> rfl

theorem doubled_of_not_mem {quote : Char} {cs : List Char} (h : quote ∉ cs) :
    doubled quote cs = cs := by
  induction cs with
  | nil => rfl
  | cons c cs ih =>
    simp only [List.mem_cons, not_or] at h
    simp [doubled, Ne.symm h.1, ih h.2]

end SqlClause.Text
