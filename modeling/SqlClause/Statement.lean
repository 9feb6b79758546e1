import SqlClause.Error
import SqlClause.Fragment.Basic
import SqlClause.Text.Size
import SqlClause.Value.Literal

/-! # Finished statements -/

namespace SqlClause

/-- The place of a parameter in the text, from `start` up to but without `stop`. -/
structure Slot where
  start : Nat
  stop : Nat
  param : Nat
  deriving DecidableEq

structure Statement where
  sql : List Char
  params : List Value
  slots : List Slot

/-- The text of the parts and its slots, when the text starts at `start`. -/
def Part.layout (mark : Nat → List Char) (start : Nat) : List Part → List Char × List Slot
  | [] => ([], [])
  | .text cs :: ps =>
    let (rest, slots) := layout mark (start + cs.length) ps
    (cs ++ rest, slots)
  | .parameter index :: ps =>
    let stop := start + (mark index).length
    let (rest, slots) := layout mark stop ps
    (mark index ++ rest, ⟨start, stop, index⟩ :: slots)

theorem Part.fst_layout (mark : Nat → List Char) (start : Nat) (ps : List Part) :
    (layout mark start ps).1 = ps.flatMap (chars mark) := by
  fun_induction layout mark start ps with
  | case1 => rfl
  | case2 start cs ps rest slots h ih => simpa [chars, h] using ih
  | case3 start index ps stop rest slots h ih => simpa [chars, h] using ih

def Fragment.finish (f : Fragment) : Statement :=
  let (sql, slots) := Part.layout (fun index => f.dialect.placeholder (index + 1)) 0 f.parts
  ⟨sql, f.params, slots⟩

/-- The text of a statement is the text of its fragment. -/
@[simp] theorem Fragment.sql_finish (f : Fragment) : f.finish.sql = f.sql :=
  Part.fst_layout _ 0 f.parts

@[simp] theorem Fragment.params_finish (f : Fragment) : f.finish.params = f.params := rfl

namespace Statement

def placeholderCount (s : Statement) : Nat := s.slots.length

/-- More values than parameters are allowed. -/
def validate (s : Statement) : Except Error Unit :=
  if s.params.length < s.slots.length then
    .error (.placeholderMismatch s.slots.length s.params.length)
  else .ok ()

/-- The text between two positions. -/
def between (s : Statement) (start stop : Nat) : List Char :=
  (s.sql.drop start).take (stop - start)

/-- The text from a position on, with a literal in each slot that has a value. -/
def explainFrom (s : Statement) (start : Nat) : List Slot → List Char
  | [] => s.sql.drop start
  | slot :: slots =>
    let shown := match s.params[slot.param]? with
      | some v => v.literal
      | none => s.between slot.start slot.stop
    s.between start slot.start ++ shown ++ s.explainFrom slot.stop slots

/-- The text with literals in the places of the parameters, for logs. -/
def explain (s : Statement) : List Char := s.explainFrom 0 s.slots

def explainWithin (s : Statement) (room : Option Nat) : List Char :=
  match room with
  | some room => Text.abridged room s.explain
  | none => s.explain

end Statement

end SqlClause
