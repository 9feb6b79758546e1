import SqlClause.Column.Basic
import SqlClause.Error

/-! # Columns from dotted names -/

namespace SqlClause.Column

def startsWord (c : Char) : Bool := c = '_' ∨ c.isAlpha

def continuesWord (c : Char) : Bool := c = '_' ∨ c = '$' ∨ c.isAlphanum

def segments (cs : List Char) : List (List Char) :=
  cs.foldr (fun c parts => if c = '.' then [] :: parts else parts.modifyHead (c :: ·)) [[]]

def checked (segment : List Char) : Except PathFault String :=
  match segment with
  | [] => .error .emptySegment
  | c :: rest =>
    if !startsWord c then .error (.badStart c)
    else
      match rest.find? (!continuesWord ·) with
      | some d => .error (.badCharacter d)
      | none => .ok (String.ofList segment)

def last (segment : List Char) : Except PathFault Column :=
  if segment = ['*'] then .ok star else named <$> checked segment

def ofSegments : List (List Char) → Except PathFault Column
  | [name] => last name
  | [table, name] => do
    let table ← checked table
    return (← last name).inTable table
  | _ => .error .tooManySegments

/-- A word, or a star, with at most one word before it that names the table. -/
def read (path : String) : Except Error Column :=
  let cs := path.toList
  let column :=
    if cs = [] then .error .empty
    else if '\x00' ∈ cs then .error .nul
    else ofSegments (segments cs)
  column.mapError (.invalidIdentifier path)

example : (read "users.*").toOption = some { table := some "users", name := "*", raw := true } := by
  decide +kernel

end SqlClause.Column
