import SqlClause.Column.Basic
import SqlClause.Dialect
import SqlClause.Fragment.Atom
import SqlClause.Value.Basic

/-! # Fragments of a statement -/

namespace SqlClause

/-- Text, or the place of a parameter. -/
inductive Part where
  | text (cs : List Char)
  | parameter (index : Nat)
  deriving DecidableEq

namespace Part

def isParameter : Part → Bool
  | .parameter _ => true
  | .text _ => false

/-- The text of a part where `mark` gives the text of a parameter. -/
def chars (mark : Nat → List Char) : Part → List Char
  | .text cs => cs
  | .parameter index => mark index

/-- The part in a statement with `offset` more parameters before its own. -/
def shift (offset : Nat) : Part → Part
  | .text cs => .text cs
  | .parameter index => .parameter (index + offset)

/-- The parts with a text after them, which a text at their end takes up. -/
def addText (cs : List Char) : List Part → List Part
  | [] => if cs = [] then [] else [.text cs]
  | [.text ds] => [.text (ds ++ cs)]
  | p :: ps => p :: addText cs ps

def add (ps : List Part) : Part → List Part
  | .text cs => addText cs ps
  | .parameter index => ps ++ [.parameter index]

@[simp] theorem flatMap_chars_addText (mark : Nat → List Char) (cs : List Char) (ps : List Part) :
    (addText cs ps).flatMap (chars mark) = ps.flatMap (chars mark) ++ cs := by
  fun_induction addText cs ps with
  | case1 h => simp [h]
  | case2 => simp [chars]
  | case3 => simp [chars]
  | case4 p ps _ ih => simp [ih]

@[simp] theorem countP_isParameter_addText (cs : List Char) (ps : List Part) :
    (addText cs ps).countP isParameter = ps.countP isParameter := by
  fun_induction addText cs ps with
  | case1 => rfl
  | case2 => rfl
  | case3 => rfl
  | case4 p ps _ ih => simp [List.countP_cons, ih]

@[simp] theorem flatMap_chars_add (mark : Nat → List Char) (ps : List Part) (p : Part) :
    (add ps p).flatMap (chars mark) = ps.flatMap (chars mark) ++ p.chars mark := by
  cases p <;> simp [add, chars]

theorem flatMap_chars_foldl_add (mark : Nat → List Char) (ps qs : List Part) :
    (qs.foldl add ps).flatMap (chars mark) = ps.flatMap (chars mark) ++ qs.flatMap (chars mark) := by
  induction qs generalizing ps with
  | nil => simp
  | cons q qs ih => simp [ih, List.append_assoc]

@[simp] theorem chars_shift (mark : Nat → List Char) (offset : Nat) (p : Part) :
    (p.shift offset).chars mark = p.chars fun index => mark (index + offset) := by
  cases p <;> rfl

end Part

/-- Text and parameters in order, the values of the parameters, and values that no parameter in the
text stands for. -/
structure Fragment where
  dialect : Dialect
  parts : List Part := []
  params : List Value := []

namespace Fragment

def blank (d : Dialect) : Fragment := { dialect := d }

def write (f : Fragment) (cs : List Char) : Fragment :=
  { f with parts := Part.addText cs f.parts }

def writeName (f : Fragment) (name : String) : Fragment := f.write (f.dialect.quoted name.toList)

/-- The name of a raw column and the star are not quoted. -/
def writeColumn (f : Fragment) (c : Column) : Fragment :=
  let f := match c.table with
    | some table => (f.writeName table).write ['.']
    | none => f
  let f := if c.raw ∨ c.name = "*" then f.write c.name.toList else f.writeName c.name
  match c.label with
  | some label => (f.write [' ', 'A', 'S', ' ']).writeName label
  | none => f

/-- Writes a parameter and binds its value. -/
def bind (f : Fragment) (v : Value) : Fragment :=
  { f with parts := f.parts ++ [.parameter f.params.length], params := f.params ++ [v] }

/-- Binds a value without a parameter in the text. -/
def supply (f : Fragment) (v : Value) : Fragment := { f with params := f.params ++ [v] }

/-- Binds values with commas between their parameters. -/
def bindAll (f : Fragment) : List Value → Fragment
  | [] => f
  | [v] => f.bind v
  | v :: vs => ((f.bind v).write [',']).bindAll vs

def supplyAll (f : Fragment) (vs : List Value) : Fragment := vs.foldl supply f

/-- The text with `mark` in the place of each parameter. -/
def chars (f : Fragment) (mark : Nat → List Char) : List Char := f.parts.flatMap (Part.chars mark)

/-- The text that all dialects share but for their quotes. -/
def canonical (f : Fragment) : List Char := f.chars fun _ => ['?']

def sql (f : Fragment) : List Char := f.chars fun index => f.dialect.placeholder (index + 1)

def placeholderCount (f : Fragment) : Nat := f.parts.countP Part.isParameter

/-- Neither text nor values. -/
def isVoid (f : Fragment) : Bool := f.params.isEmpty && f.parts.all (· = .text [])

def isAtomic (f : Fragment) : Bool :=
  Atom.isAtomic f.dialect.quote f.params.length f.canonical

/-- The parameters of the second fragment follow those of the first. -/
def append (f g : Fragment) : Fragment :=
  { f with
    parts := (g.parts.map (Part.shift f.params.length)).foldl Part.add f.parts
    params := f.params ++ g.params }

def bracketed (f g : Fragment) : Fragment := ((f.write ['(']).append g).write [')']

/-- The second fragment as an operand: in brackets unless it is atomic. -/
def appendOperand (f g : Fragment) : Fragment :=
  if g.isAtomic then f.append g else f.bracketed g

@[simp] theorem chars_write (f : Fragment) (cs : List Char) (mark : Nat → List Char) :
    (f.write cs).chars mark = f.chars mark ++ cs := by
  simp [chars, write]

@[simp] theorem chars_bind (f : Fragment) (v : Value) (mark : Nat → List Char) :
    (f.bind v).chars mark = f.chars mark ++ mark f.params.length := by
  simp [chars, bind, Part.chars]

@[simp] theorem chars_supply (f : Fragment) (v : Value) (mark : Nat → List Char) :
    (f.supply v).chars mark = f.chars mark := rfl

/-- The parameters of the second fragment are marked as those that follow. -/
@[simp] theorem chars_append (f g : Fragment) (mark : Nat → List Char) :
    (f.append g).chars mark =
      f.chars mark ++ g.chars fun index => mark (index + f.params.length) := by
  simp only [chars, append, Part.flatMap_chars_foldl_add, List.flatMap_map, Part.chars_shift]

@[simp] theorem params_write (f : Fragment) (cs : List Char) : (f.write cs).params = f.params := rfl

@[simp] theorem params_bind (f : Fragment) (v : Value) : (f.bind v).params = f.params ++ [v] := rfl

@[simp] theorem params_supply (f : Fragment) (v : Value) :
    (f.supply v).params = f.params ++ [v] := rfl

@[simp] theorem params_append (f g : Fragment) :
    (f.append g).params = f.params ++ g.params := rfl

theorem canonical_append (f g : Fragment) :
    (f.append g).canonical = f.canonical ++ g.canonical := by
  simp [canonical]

end Fragment

end SqlClause
