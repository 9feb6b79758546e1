/-! # Size of text in UTF-8 -/

namespace SqlClause.Text

/-- The number of bytes that the UTF-8 encoding takes. -/
def size : List Char → Nat
  | [] => 0
  | c :: cs => c.utf8Size + size cs

/-- The longest prefix of whole characters that takes at most `room` bytes. -/
def fitting : Nat → List Char → List Char
  | _, [] => []
  | room, c :: cs => if c.utf8Size ≤ room then c :: fitting (room - c.utf8Size) cs else []

/-- The text itself when it fits, and otherwise its longest fitting prefix and an ellipsis. -/
def abridged (room : Nat) (cs : List Char) : List Char :=
  if size cs ≤ room then cs else fitting room cs ++ ['.', '.', '.']

@[simp] theorem size_append (xs ys : List Char) : size (xs ++ ys) = size xs + size ys := by
  induction xs with
  | nil => simp [size]
  | cons c cs ih => simp [size, ih, Nat.add_assoc]

theorem size_fitting_le (room : Nat) (cs : List Char) : size (fitting room cs) ≤ room := by
  induction cs generalizing room with
  | nil => simp [fitting, size]
  | cons c cs ih =>
    simp only [fitting]
    split
    · have := ih (room - c.utf8Size)
      simp only [size]
      omega
    · simp [size]

end SqlClause.Text
