import SqlClause.Proofs.ConditionReading
import SqlClause.Proofs.SqlTokens

/-! # Clauses and their grammar

A predicate takes in the terms of its BETWEEN; then NOT binds closest, AND before OR, and brackets
come before all of them. -/

namespace SqlClause.Sql

inductive Relation where
  | eq
  | ne
  | gt
  | ge
  | lt
  | le

def Relation.ofSign? : List Char → Option Relation
  | ['='] => some .eq
  | ['<', '>'] => some .ne
  | ['!', '='] => some .ne
  | ['>'] => some .gt
  | ['>', '='] => some .ge
  | ['<'] => some .lt
  | ['<', '='] => some .le
  | _ => none

inductive Term where
  | column (table : Option (List Char)) (name : List Char)
  | param (index : Nat)
  | null

inductive Clause where
  | relation (op : Relation) (x y : Term)
  | like (x y : Term)
  | among (x : Term) (ys : List Term)
  | between (x low high : Term)
  | isNull (x : Term)
  | not (c : Clause)
  | and (a b : Clause)
  | or (a b : Clause)

section Truth

variable {D : Type} [LinearOrder D]

/-- The value of a term that is not null. A parameter that is not bound has no value either. -/
def Term.value? (r : Reading D) (params : List Value) : Term → Option D
  | .column table name =>
    some (r.value (.column { table := table.map String.ofList, name := String.ofList name }))
  | .param index => (params[index]?.filter (!·.isNull)).map r.scalar
  | .null => none

def Relation.relates (x y : D) : Relation → Bool
  | .eq => x = y
  | .ne => x ≠ y
  | .gt => y < x
  | .ge => y ≤ x
  | .lt => x < y
  | .le => x ≤ y

/-- A null is related to nothing. -/
def Term.related (r : Reading D) (params : List Value) (relates : D → D → Bool) (x y : Term) :
    Bool :=
  match x.value? r params, y.value? r params with
  | some a, some b => relates a b
  | _, _ => false

/-- The truth of a clause for the values of its columns and parameters. -/
def Clause.holds (r : Reading D) (params : List Value) : Clause → Bool
  | .relation op x y => x.related r params (fun a b => op.relates a b) y
  | .like x y => x.related r params r.like y
  | .among x ys => ys.any fun y => x.related r params (· = ·) y
  | .between x low high =>
    low.related r params (· ≤ ·) x && x.related r params (· ≤ ·) high
  | .isNull x => (x.value? r params).isNone
  | .not c => !c.holds r params
  | .and a b => a.holds r params && b.holds r params
  | .or a b => a.holds r params || b.holds r params

end Truth

/-- What is read from the start of some tokens, and the tokens after it. -/
structure Parsed (α : Type) (ts : List Token) where
  value : α
  rest : List Token
  shorter : rest.length < ts.length

/-- What is read further on, as a part of what is read from the start. -/
def Parsed.into {α β : Type} {ts us : List Token} (p : Parsed α us) (f : α → β)
    (h : us.length < ts.length) : Parsed β ts :=
  ⟨f p.value, p.rest, Nat.lt_trans p.shorter h⟩

def term : (ts : List Token) → Option (Parsed Term ts)
  | .name table :: .point :: .name name :: ts =>
    some ⟨.column (some table) name, ts, by simp only [List.length_cons]; omega⟩
  | .name name :: ts => some ⟨.column none name, ts, Nat.lt_succ_self ts.length⟩
  | .param index :: ts => some ⟨.param index, ts, Nat.lt_succ_self ts.length⟩
  | .keyword .null :: ts => some ⟨.null, ts, Nat.lt_succ_self ts.length⟩
  | _ => none

/-- Terms with commas between them, up to the bracket that closes them. -/
def terms (ts : List Token) : Option (Parsed (List Term) ts) :=
  match term ts with
  | some ⟨x, .closed :: rest, h⟩ => some ⟨[x], rest, Nat.lt_of_succ_lt h⟩
  | some ⟨x, .comma :: rest, h⟩ =>
    (terms rest).map fun p => p.into (x :: ·) (Nat.lt_of_succ_lt h)
  | _ => none
termination_by ts.length
decreasing_by exact Nat.lt_of_succ_lt h

/-- What is said of a term, where NOT may stand before it. -/
def assertion (x : Term) : (ts : List Token) → Option (Parsed Clause ts)
  | .keyword .like :: ts =>
    (term ts).map fun p => p.into (.like x) (Nat.lt_succ_self ts.length)
  | .keyword .isIn :: .opened :: ts =>
    (terms ts).map fun p => p.into (.among x) (by simp only [List.length_cons]; omega)
  | .keyword .between :: ts =>
    match term ts with
    | some ⟨low, .keyword .and :: rest, h⟩ =>
      (term rest).map fun p =>
        p.into (.between x low) (Nat.lt_trans (Nat.lt_of_succ_lt h) (Nat.lt_succ_self ts.length))
    | _ => none
  | _ => none

def predicate (ts : List Token) : Option (Parsed Clause ts) :=
  match term ts with
  | some ⟨x, .sign cs :: rest, h⟩ =>
    (Relation.ofSign? cs).bind fun op =>
      (term rest).map fun p => p.into (.relation op x) (Nat.lt_of_succ_lt h)
  | some ⟨x, .keyword .is :: .keyword .null :: rest, h⟩ =>
    some ⟨.isNull x, rest, Nat.lt_of_succ_lt (Nat.lt_of_succ_lt h)⟩
  | some ⟨x, .keyword .is :: .keyword .not :: .keyword .null :: rest, h⟩ =>
    some ⟨.not (.isNull x), rest,
      Nat.lt_of_succ_lt (Nat.lt_of_succ_lt (Nat.lt_of_succ_lt h))⟩
  | some ⟨x, .keyword .not :: rest, h⟩ =>
    (assertion x rest).map fun p => p.into .not (Nat.lt_of_succ_lt h)
  | some ⟨x, rest, h⟩ => (assertion x rest).map fun p => p.into id h
  | none => none

mutual

def disjunction (ts : List Token) : Option (Parsed Clause ts) :=
  match conjunction ts with
  | some ⟨a, .keyword .or :: rest, h⟩ =>
    (disjunction rest).map fun p => p.into (.or a) (Nat.lt_of_succ_lt h)
  | p => p
termination_by (ts.length, 2)
decreasing_by
  · exact Prod.Lex.right _ (by decide)
  · exact Prod.Lex.left _ _ (Nat.lt_of_succ_lt h)

def conjunction (ts : List Token) : Option (Parsed Clause ts) :=
  match negand ts with
  | some ⟨a, .keyword .and :: rest, h⟩ =>
    (conjunction rest).map fun p => p.into (.and a) (Nat.lt_of_succ_lt h)
  | p => p
termination_by (ts.length, 1)
decreasing_by
  · exact Prod.Lex.right _ (by decide)
  · exact Prod.Lex.left _ _ (Nat.lt_of_succ_lt h)

/-- A predicate or a clause in brackets, with any number of NOT before it. -/
def negand (ts : List Token) : Option (Parsed Clause ts) :=
  match ts with
  | .keyword .not :: us => (negand us).map fun p => p.into .not (Nat.lt_succ_self us.length)
  | .opened :: us =>
    match disjunction us with
    | some ⟨c, .closed :: rest, h⟩ =>
      some ⟨c, rest, Nat.lt_trans (Nat.lt_of_succ_lt h) (Nat.lt_succ_self us.length)⟩
    | _ => none
  | ts => predicate ts
termination_by (ts.length, 0)
decreasing_by all_goals exact Prod.Lex.left _ _ (Nat.lt_succ_self _)

end

/-- The clause that a text is, with names in `quote`. -/
def Clause.read? (quote : Char) (cs : List Char) : Option Clause :=
  match disjunction (tokens quote cs) with
  | some ⟨c, [], _⟩ => some c
  | _ => none

/-- The reading ended with a value and left some tokens over. -/
def Gives {α : Type} {ts : List Token} (o : Option (Parsed α ts)) (a : α) (rest : List Token) :
    Prop :=
  ∃ h, o = some ⟨a, rest, h⟩

/-- Tokens that are a clause whatever comes after them. -/
def IsUnit (ts : List Token) (c : Clause) : Prop := ∀ rest, Gives (negand (ts ++ rest)) c rest

variable {ts us rest : List Token} {a b c : Clause}

theorem Gives.map_into {α β : Type} {o : Option (Parsed α us)} {x : α} (h : Gives o x rest)
    (f : α → β) (hlt : us.length < ts.length) :
    Gives (o.map fun p => p.into f hlt) (f x) rest := by
  obtain ⟨hx, rfl⟩ := h
  exact ⟨Nat.lt_trans hx hlt, rfl⟩

theorem conjunction_of_negand (h : Gives (negand ts) c rest)
    (hrest : rest.head? ≠ some (.keyword .and)) : Gives (conjunction ts) c rest := by
  obtain ⟨hlt, hc⟩ := h
  refine ⟨hlt, ?_⟩
  rw [conjunction, hc]
  split
  · rename_i heq
    obtain ⟨rfl, rfl⟩ := by simpa using heq
    exact absurd rfl hrest
  · rfl

theorem conjunction_and (h : Gives (negand ts) a (.keyword .and :: us))
    (hus : Gives (conjunction us) b rest) : Gives (conjunction ts) (.and a b) rest := by
  obtain ⟨hlt, ha⟩ := h
  rw [conjunction, ha]
  exact hus.map_into (Clause.and a) (Nat.lt_of_succ_lt hlt)

theorem disjunction_of_conjunction (h : Gives (conjunction ts) c rest)
    (hrest : rest.head? ≠ some (.keyword .or)) : Gives (disjunction ts) c rest := by
  obtain ⟨hlt, hc⟩ := h
  refine ⟨hlt, ?_⟩
  rw [disjunction, hc]
  split
  · rename_i heq
    obtain ⟨rfl, rfl⟩ := by simpa using heq
    exact absurd rfl hrest
  · rfl

theorem disjunction_or (h : Gives (conjunction ts) a (.keyword .or :: us))
    (hus : Gives (disjunction us) b rest) : Gives (disjunction ts) (.or a b) rest := by
  obtain ⟨hlt, ha⟩ := h
  rw [disjunction, ha]
  exact hus.map_into (Clause.or a) (Nat.lt_of_succ_lt hlt)

theorem isUnit_bracketed (h : ∀ rest, Gives (disjunction (ts ++ .closed :: rest)) c (.closed :: rest)) :
    IsUnit (.opened :: ts ++ [.closed]) c := by
  intro rest
  obtain ⟨hlt, hc⟩ := h rest
  have bracketed : .opened :: ts ++ [.closed] ++ rest = Token.opened :: (ts ++ .closed :: rest) := by
    simp
  rw [bracketed, negand, hc]
  exact ⟨_, rfl⟩

/-- Tokens that are one clause are read as that clause. -/
theorem read?_of_isUnit {quote : Char} {cs : List Char} (h : IsUnit (tokens quote cs) c) :
    Clause.read? quote cs = some c := by
  have whole := h []
  rw [List.append_nil] at whole
  have conj := conjunction_of_negand whole (by simp)
  obtain ⟨hlt, hc⟩ := disjunction_of_conjunction conj (by simp)
  rw [Clause.read?, hc]

end SqlClause.Sql
