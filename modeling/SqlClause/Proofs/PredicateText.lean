import SqlClause.Proofs.PredicateForms

/-! # The text of predicates is read as their clauses -/

namespace SqlClause

/-- Placeholders with commas between them, when there are `rank` parameters before. -/
def Dialect.placeholders (d : Dialect) (rank : Nat) : Nat → List Char
  | 0 => []
  | 1 => d.placeholder (rank + 1)
  | n + 2 => d.placeholder (rank + 1) ++ ',' :: d.placeholders (rank + 1) (n + 1)

theorem Fragment.chars_bindAll (f : Fragment) (vs : List Value) (d : Dialect) (rank : Nat) :
    (f.bindAll vs).chars (fun index => d.placeholder (index + rank + 1)) =
      f.chars (fun index => d.placeholder (index + rank + 1)) ++
        d.placeholders (f.params.length + rank) vs.length := by
  fun_induction bindAll f vs with
  | case1 f => simp [Dialect.placeholders]
  | case2 f v => simp [Dialect.placeholders]
  | case3 f v vs hvs ih =>
    obtain ⟨w, vs, rfl⟩ := List.exists_cons_of_ne_nil hvs
    have next : f.params.length + 1 + rank = f.params.length + rank + 1 := by omega
    rw [ih]
    simp [Dialect.placeholders, next]

namespace Predicate

open Sql (Token Term Clause Keyword)

/-- The text of the scalars and what stands between and after them, when there are `rank` parameters
before. -/
def marks (d : Dialect) (rank : Nat) : Predicate → List Char
  | .relation _ _ | .like _ _ => d.placeholder (rank + 1)
  | .isNull _ | .amongNone => []
  | .among _ vs _ => d.placeholders rank (vs.length + 1) ++ [')']
  | .between _ _ _ => d.placeholder (rank + 1) ++ (" AND ".toList ++ d.placeholder (rank + 1 + 1))

theorem chars_write (p : Predicate) (f : Fragment) (d : Dialect) (rank : Nat) :
    (p.write f).chars (fun index => d.placeholder (index + rank + 1)) =
      f.chars (fun index => d.placeholder (index + rank + 1)) ++
        (p.lead.toList ++ p.marks d (f.params.length + rank)) := by
  cases p with
  | among v vs negated =>
    have list := Fragment.chars_bindAll
      (f.writeString (among v vs negated).lead) (v :: vs) d rank
    rw [write, Fragment.chars_write, list, marks, Fragment.writeString, Fragment.chars_write,
      Fragment.params_write, List.length_cons]
    simp only [List.append_assoc]
  | between low high negated =>
    have next : f.params.length + 1 + rank = f.params.length + rank + 1 := by omega
    simp only [write, marks, Fragment.writeString, Fragment.chars_bind, Fragment.chars_write,
      Fragment.params_write, Fragment.params_bind, List.length_append, List.length_singleton, next,
      List.append_assoc]
  | _ =>
    simp only [write, marks, Fragment.writeString, Fragment.chars_bind, Fragment.chars_write,
      Fragment.params_write, List.append_assoc, List.append_nil]

end Predicate

namespace Sql

def negations (negated : Bool) : List Token := if negated then [.keyword .not] else []

def paramTokens (rank : Nat) : Nat → List Token
  | 0 => []
  | 1 => [.param rank]
  | n + 2 => .param rank :: .comma :: paramTokens (rank + 1) (n + 1)

def Clause.negatedIf (c : Clause) (negated : Bool) : Clause := if negated then .not c else c

end Sql

namespace Predicate

open Sql (Token Term Clause lex paramTokens)

def leadTokens : Predicate → List Token
  | .relation op _ => [.sign op.spelling.toList]
  | .like _ negated => Sql.negations negated ++ [.keyword .like]
  | .isNull negated => .keyword .is :: (Sql.negations negated ++ [.keyword .null])
  | .amongNone => [.keyword .isIn, .opened, .keyword .null, .closed]
  | .among _ _ negated => Sql.negations negated ++ [.keyword .isIn, .opened]
  | .between _ _ negated => Sql.negations negated ++ [.keyword .between]

def markTokens (rank : Nat) : Predicate → List Token
  | .relation _ _ | .like _ _ => [.param rank]
  | .isNull _ | .amongNone => []
  | .among _ vs _ => paramTokens rank (vs.length + 1) ++ [.closed]
  | .between _ _ _ => [.param rank, .keyword .and, .param (rank + 1)]

/-- What is said of the term `x` when there are `rank` parameters before. -/
def clause (x : Term) (rank : Nat) : Predicate → Clause
  | .relation op _ => .relation op x (.param rank)
  | .like _ negated => (Clause.like x (.param rank)).negatedIf negated
  | .isNull negated => (Clause.isNull x).negatedIf negated
  | .amongNone => .among x [.null]
  | .among _ vs negated =>
    (Clause.among x ((List.range' rank (vs.length + 1)).map .param)).negatedIf negated
  | .between _ _ negated =>
    (Clause.between x (.param rank) (.param (rank + 1))).negatedIf negated

section Lex

variable {d : Dialect} {quote : Char} {rank : Nat} {rest : List Char}

theorem lex_placeholders (hd : Sql.IsLegible d) (n : Nat) (h : Sql.Apart rest) :
    lex d.quote rank .nothing (d.placeholders rank n ++ rest) =
      paramTokens rank n ++ lex d.quote (rank + n) .nothing rest := by
  induction n generalizing rank with
  | zero => rfl
  | succ n ih =>
    cases n with
    | zero => exact hd.placeholder rank rest h
    | succ n =>
      have next : rank + 1 + (n + 1) = rank + (n + 1 + 1) := by omega
      rw [Dialect.placeholders, List.append_assoc, List.cons_append,
        hd.placeholder rank _ (Sql.apart_cons (by decide) _), Sql.lex_punctuation hd.quote rfl, ih,
        next, paramTokens]
      rfl

/-- The words after a column are read apart from its first scalar. -/
theorem lex_lead (hq : quote = '\x60' ∨ quote = '"') (p : Predicate)
    (h : p.values = [] → Sql.Apart rest) :
    lex quote rank .nothing (p.lead.toList ++ rest) =
      p.leadTokens ++ lex quote rank .nothing rest := by
  have opened : lex quote rank .nothing ('(' :: rest) = .opened :: lex quote rank .nothing rest :=
    Sql.lex_punctuation hq rfl
  have closed : lex quote rank .nothing (')' :: rest) = .closed :: lex quote rank .nothing rest :=
    Sql.lex_punctuation hq rfl
  cases p with
  | relation op v =>
    rw [lead, String.toList_append, String.toList_append]
    rcases hq with rfl | rfl <;> cases op <;> rfl
  | like v negated =>
    cases negated with
    | false =>
      change lex quote rank .nothing (" LIKE ".toList ++ rest) = _
      rcases hq with rfl | rfl <;> rfl
    | true =>
      change lex quote rank .nothing (" NOT LIKE ".toList ++ rest) = _
      rcases hq with rfl | rfl <;> rfl
  | between low high negated =>
    cases negated with
    | false =>
      change lex quote rank .nothing (" BETWEEN ".toList ++ rest) = _
      rcases hq with rfl | rfl <;> rfl
    | true =>
      change lex quote rank .nothing (" NOT BETWEEN ".toList ++ rest) = _
      rcases hq with rfl | rfl <;> rfl
  | isNull negated =>
    have null : lex quote rank (.word ['N', 'U', 'L', 'L']) rest =
        .keyword .null :: lex quote rank .nothing rest := Sql.lex_word (h rfl)
    cases negated with
    | false =>
      calc lex quote rank .nothing (" IS NULL".toList ++ rest)
          = .keyword .is :: lex quote rank (.word ['N', 'U', 'L', 'L']) rest := by
            rcases hq with rfl | rfl <;> rfl
        _ = _ := by rw [null]; rfl
    | true =>
      calc lex quote rank .nothing (" IS NOT NULL".toList ++ rest)
          = .keyword .is :: .keyword .not :: lex quote rank (.word ['N', 'U', 'L', 'L']) rest := by
            rcases hq with rfl | rfl <;> rfl
        _ = _ := by rw [null]; rfl
  | amongNone =>
    calc lex quote rank .nothing (" IN (NULL)".toList ++ rest)
        = .keyword .isIn :: lex quote rank .nothing ("(NULL".toList ++ ')' :: rest) := by
          rcases hq with rfl | rfl <;> rfl
      _ = .keyword .isIn :: .opened :: .keyword .null :: lex quote rank .nothing (')' :: rest) := by
          rcases hq with rfl | rfl <;> rfl
      _ = _ := by rw [closed]; rfl
  | among v vs negated =>
    cases negated with
    | false =>
      calc lex quote rank .nothing (" IN (".toList ++ rest)
          = .keyword .isIn :: lex quote rank .nothing ('(' :: rest) := by
            rcases hq with rfl | rfl <;> rfl
        _ = _ := by rw [opened]; rfl
    | true =>
      calc lex quote rank .nothing (" NOT IN (".toList ++ rest)
          = .keyword .not :: .keyword .isIn :: lex quote rank .nothing ('(' :: rest) := by
            rcases hq with rfl | rfl <;> rfl
        _ = _ := by rw [opened]; rfl

theorem lex_marks (hd : Sql.IsLegible d) (p : Predicate) (h : Sql.Apart rest) :
    lex d.quote rank .nothing (p.marks d rank ++ rest) =
      p.markTokens rank ++ lex d.quote (rank + p.values.length) .nothing rest := by
  cases p with
  | relation op v => exact hd.placeholder rank rest h
  | like v negated => exact hd.placeholder rank rest h
  | isNull negated => rfl
  | amongNone => rfl
  | among v vs negated =>
    rw [marks, markTokens, List.append_assoc, List.append_assoc, List.singleton_append,
      lex_placeholders hd _ (Sql.apart_cons (by decide) _), Sql.lex_punctuation hd.quote rfl]
    rfl
  | between low high negated =>
    have conjoined (rank : Nat) (cs : List Char) :
        lex d.quote rank .nothing (" AND ".toList ++ cs) =
          .keyword .and :: lex d.quote rank .nothing cs := by
      rcases hd.quote with hq | hq <;> rw [hq] <;> rfl
    have apart (cs : List Char) : Sql.Apart (" AND ".toList ++ cs) := Sql.apart_cons (.inl rfl) _
    rw [marks, markTokens, List.append_assoc, List.append_assoc, hd.placeholder rank _ (apart _),
      conjoined, hd.placeholder (rank + 1) rest h]
    rfl

theorem apart_lead (p : Predicate) (cs : List Char) : Sql.Apart (p.lead.toList ++ cs) := by
  have blank : ∃ ds, p.lead.toList = ' ' :: ds := by
    cases p with
    | relation op v => simp [lead]
    | amongNone => simp [lead]
    | like v negated => cases negated <;> simp [lead]
    | isNull negated => cases negated <;> simp [lead]
    | among v vs negated => cases negated <;> simp [lead]
    | between low high negated => cases negated <;> simp [lead]
  obtain ⟨ds, hds⟩ := blank
  rw [hds]
  exact Sql.apart_cons (.inl rfl) _

theorem lex_predicate (hd : Sql.IsLegible d) (c : Column) (p : Predicate) (h : Sql.Apart rest) :
    lex d.quote rank .nothing (c.text d.quote ++ (p.lead.toList ++ p.marks d rank) ++ rest) =
      c.tokens ++ (p.leadTokens ++ p.markTokens rank) ++
        lex d.quote (rank + p.values.length) .nothing rest := by
  have bare : p.values = [] → Sql.Apart (p.marks d rank ++ rest) := by
    intro hp
    cases p with
    | isNull negated => exact h
    | amongNone => exact h
    | _ => simp [values] at hp
  rw [List.append_assoc, List.append_assoc, Column.lex_text hd.quote (p.apart_lead _),
    lex_lead hd.quote p bare, lex_marks hd p h, List.append_assoc, List.append_assoc]

end Lex

end Predicate

namespace Column

open Sql (Term Token Gives)

def term (c : Column) : Term := .column (c.table.map String.toList) c.name.toList

theorem gives_term (c : Column) {ts : List Token} (h : ts.head? ≠ some .point) :
    Gives (Sql.term (c.tokens ++ ts)) c.term ts := by
  cases ht : c.table with
  | some table =>
    rw [tokens, ht, term, ht]
    exact ⟨_, rfl⟩
  | none =>
    rw [tokens, ht, term, ht]
    cases ts with
    | nil => exact ⟨_, rfl⟩
    | cons t ts => cases t <;> first | exact ⟨_, rfl⟩ | exact absurd rfl h

end Column

namespace Predicate

open Sql (Token Term Clause Gives paramTokens)

section Parse

variable {x : Term} {c : Clause} {rank : Nat} {us ts rest : List Token}

theorem gives_terms (n : Nat) :
    Gives (Sql.terms (paramTokens rank (n + 1) ++ .closed :: rest))
      ((List.range' rank (n + 1)).map .param) rest := by
  induction n generalizing rank with
  | zero =>
    refine ⟨by simp only [paramTokens, List.singleton_append, List.length_cons]; omega, ?_⟩
    rw [Sql.terms]
    rfl
  | succ n ih =>
    rw [paramTokens, List.cons_append, List.cons_append, Sql.terms]
    exact ih.map_into (.param rank :: ·) _

/-- An assertion about a term is the same with NOT before it, negated. -/
theorem gives_predicate_of_assertion (negated : Bool) {w : Sql.Keyword}
    (hw : w = .like ∨ w = .isIn ∨ w = .between)
    (hx : Gives (Sql.term us) x (Sql.negations negated ++ .keyword w :: ts))
    (h : Gives (Sql.assertion x (.keyword w :: ts)) c rest) :
    Gives (Sql.predicate us) (c.negatedIf negated) rest := by
  obtain ⟨hlt, hterm⟩ := hx
  cases negated with
  | true =>
    rw [Sql.predicate, hterm]
    exact h.map_into Clause.not _
  | false =>
    rw [Sql.predicate, hterm]
    rcases hw with rfl | rfl | rfl <;> exact h.map_into id _

theorem gives_predicate (c : Column) (p : Predicate) :
    Gives (Sql.predicate (c.tokens ++ (p.leadTokens ++ (p.markTokens rank ++ rest))))
      (p.clause c.term rank) rest := by
  have negatable (negated : Bool) (w : Sql.Keyword) (ts : List Token) :
      Gives (Sql.term (c.tokens ++ (Sql.negations negated ++ .keyword w :: ts))) c.term
        (Sql.negations negated ++ .keyword w :: ts) :=
    c.gives_term (by cases negated <;> simp [Sql.negations])
  cases p with
  | relation op v =>
    have hx : Gives (Sql.term (c.tokens ++ .sign op.spelling.toList :: .param rank :: rest)) c.term
        (.sign op.spelling.toList :: .param rank :: rest) := c.gives_term (by simp)
    obtain ⟨hlt, hx⟩ := hx
    have sign : Sql.Relation.ofSign? op.spelling.toList = some op := by cases op <;> rfl
    change Gives (Sql.predicate (c.tokens ++ .sign op.spelling.toList :: .param rank :: rest)) _ _
    rw [Sql.predicate, hx]
    simp only [sign]
    exact ⟨_, rfl⟩
  | like v negated =>
    rw [leadTokens, List.append_assoc]
    exact gives_predicate_of_assertion negated (.inl rfl) (negatable negated .like _) ⟨_, rfl⟩
  | isNull negated =>
    have hx : Gives (Sql.term
        (c.tokens ++ .keyword .is :: (Sql.negations negated ++ .keyword .null :: rest))) c.term
        (.keyword .is :: (Sql.negations negated ++ .keyword .null :: rest)) := c.gives_term (by simp)
    obtain ⟨hlt, hx⟩ := hx
    rw [leadTokens, List.cons_append, List.append_assoc]
    change Gives (Sql.predicate
      (c.tokens ++ .keyword .is :: (Sql.negations negated ++ .keyword .null :: rest))) _ _
    rw [Sql.predicate, hx]
    cases negated <;> exact ⟨_, rfl⟩
  | amongNone =>
    refine gives_predicate_of_assertion false (.inr (.inl rfl)) (negatable false .isIn _) ?_
    have null : Gives (Sql.terms (.keyword .null :: .closed :: rest)) [.null] rest := by
      refine ⟨by simp only [List.length_cons]; omega, ?_⟩
      rw [Sql.terms]
      rfl
    exact null.map_into (Clause.among c.term) _
  | among v vs negated =>
    rw [leadTokens, markTokens, List.append_assoc, List.append_assoc]
    refine gives_predicate_of_assertion negated (.inr (.inl rfl)) (negatable negated .isIn _) ?_
    exact (gives_terms vs.length).map_into (Clause.among c.term) _
  | between low high negated =>
    rw [leadTokens, List.append_assoc]
    exact gives_predicate_of_assertion negated (.inr (.inr rfl)) (negatable negated .between _)
      ⟨_, rfl⟩

theorem isUnit_predicate (c : Column) (p : Predicate) :
    Sql.IsUnit (c.tokens ++ (p.leadTokens ++ p.markTokens rank)) (p.clause c.term rank) := by
  intro rest
  have named (ts : List Token) : Sql.negand (c.tokens ++ ts) = Sql.predicate (c.tokens ++ ts) := by
    rw [Column.tokens]
    cases c.table <;> simp [Sql.negand]
  rw [List.append_assoc, List.append_assoc, named]
  exact gives_predicate c p

end Parse

section Truth

variable {D : Type} [LinearOrder D] {r : Reading D} {params : List Value} {c : Column} {rank : Nat}

omit [LinearOrder D] in
theorem value?_column (hc : c.IsPlain) : c.term.value? r params = some (r.value (.column c)) := by
  have table : (c.table.map String.toList).map String.ofList = c.table := by
    cases c.table <;> simp
  have same : ({ table := c.table, name := c.name } : Column) = c := by
    obtain ⟨t, n, l, w⟩ := c
    obtain rfl : w = false := hc.raw
    obtain rfl : l = none := hc.label
    rfl
  rw [Column.term, Term.value?, table, String.ofList_toList, same]

omit [LinearOrder D] in
theorem value?_param {v : Value} (hv : v ≠ .null) (h : params[rank]? = some v) :
    (Term.param rank).value? r params = some (r.scalar v) := by
  have bound : v.isNull = false := Bool.eq_false_iff.mpr (mt Value.isNull_iff.mp hv)
  simp [Term.value?, h, Option.filter, bound]

theorem of_prefix_drop {v : Value} {vs : List Value} (h : v :: vs <+: params.drop rank) :
    params[rank]? = some v ∧ vs <+: params.drop (rank + 1) := by
  obtain ⟨after, h⟩ := h
  constructor
  · rw [← Nat.add_zero rank, ← List.getElem?_drop, ← h]
    rfl
  · rw [← List.drop_drop, ← h]
    exact List.prefix_append vs after

theorem any_related_params {x : Term} {a : D} (hx : x.value? r params = some a) {vs : List Value}
    (hvs : .null ∉ vs) (h : vs <+: params.drop rank) :
    ((List.range' rank vs.length).map Term.param).any (fun y => x.related r params (· = ·) y) =
      vs.any fun v => a = r.scalar v := by
  induction vs generalizing rank with
  | nil => rfl
  | cons v vs ih =>
    obtain ⟨hv, hrest⟩ := of_prefix_drop h
    have full : v ≠ .null := fun hnull => hvs (hnull ▸ List.mem_cons_self)
    rw [List.length_cons, List.range'_succ, List.map_cons, List.any_cons,
      ih (fun hmem => hvs (List.mem_cons_of_mem v hmem)) hrest, List.any_cons, Term.related, hx,
      value?_param full hv]

theorem holds_negatedIf (c : Clause) (negated : Bool) :
    (c.negatedIf negated).holds r params = (c.holds r params != negated) := by
  cases negated <;> simp [Clause.negatedIf, Clause.holds]

/-- The clause of a predicate is true where the predicate is. -/
theorem holds_clause (hc : c.IsPlain) {p : Predicate} (hp : .null ∉ p.values)
    (h : p.values <+: params.drop rank) :
    (p.clause c.term rank).holds r params = p.holds r (r.value (.column c)) := by
  have hx : c.term.value? r params = some (r.value (.column c)) := value?_column hc
  cases p with
  | relation op v =>
    have hv := value?_param (r := r) (by simpa [values, eq_comm] using hp) (of_prefix_drop h).1
    rw [clause, Clause.holds, Term.related, hx, hv, holds]
  | like v negated =>
    have hv := value?_param (r := r) (by simpa [values, eq_comm] using hp) (of_prefix_drop h).1
    rw [clause, holds_negatedIf, Clause.holds, Term.related, hx, hv, holds]
  | isNull negated => rw [clause, holds_negatedIf, Clause.holds, hx, holds]; simp
  | amongNone => simp [clause, Clause.holds, Term.related, Term.value?, holds]
  | among v vs negated =>
    rw [clause, holds_negatedIf, Clause.holds, holds]
    exact congrArg (· != negated) (any_related_params hx hp h)
  | between low high negated =>
    obtain ⟨hlow, hrest⟩ := of_prefix_drop h
    obtain ⟨hhigh, -⟩ := of_prefix_drop hrest
    simp only [values, List.mem_cons, List.not_mem_nil, or_false, not_or] at hp
    have vlow := value?_param (r := r) (Ne.symm hp.1) hlow
    have vhigh := value?_param (r := r) (Ne.symm hp.2) hhigh
    rw [clause, holds_negatedIf, Clause.holds, Term.related, Term.related, hx, vlow, vhigh, holds]
    simp

end Truth

end Predicate

end SqlClause
