import Mathlib.Data.List.Forall2
import SqlClause.Proofs.NegationComplement
import SqlClause.Proofs.PredicateText
import SqlClause.Proofs.ValueIndependence

/-! # The text of boolean trees is read as what they mean

What a tree writes is a predicate or stands in brackets, so it is one clause whatever comes after it.
Members of a group that write nothing leave no trace in the text. -/

namespace SqlClause

open Sql (Token Clause Gives IsUnit lex)

variable {D : Type} [LinearOrder D]

/-- A text that is read as some tokens, where `rank` parameters come before it, and the truth of their
clause for parameters that have the values of the fragment after those. -/
structure Fragment.Spells (r : Reading D) (f : Fragment) (rank : Nat) (ts : List Token) (c : Clause)
    (b : Bool) : Prop where
  lex : ∀ rest, Sql.Apart rest →
    lex f.dialect.quote rank .nothing
        (f.chars (fun index => f.dialect.placeholder (index + rank + 1)) ++ rest) =
      ts ++ lex f.dialect.quote (rank + f.params.length) .nothing rest
  holds : ∀ params, f.params <+: params.drop rank → c.holds r params = b

/-- A fragment whose text is one clause in any place, with the truth value `b`. -/
def Fragment.Denotes (r : Reading D) (f : Fragment) (b : Bool) : Prop :=
  ∀ rank, ∃ ts c, f.Spells r rank ts c b ∧ IsUnit ts c

/-- How the members of a group are joined. -/
inductive Junction where
  | and
  | or

namespace Junction

def separator : Junction → List Char
  | .and => " AND ".toList
  | .or => " OR ".toList

def keyword : Junction → Sql.Keyword
  | .and => .and
  | .or => .or

def combine : Junction → Clause → Clause → Clause
  | .and => .and
  | .or => .or

def verdict : Junction → List Bool → Bool
  | .and => fun bs => bs.all id
  | .or => fun bs => bs.any id

/-- The part of the grammar that reads several members. -/
def level : Junction → (ts : List Token) → Option (Sql.Parsed Clause ts)
  | .and => Sql.conjunction
  | .or => Sql.disjunction

variable {ts us rest : List Token} {a b : Clause}

theorem gives_level_single (j : Junction) (h : IsUnit ts a) :
    Gives (j.level (ts ++ .closed :: rest)) a (.closed :: rest) := by
  have conj := Sql.conjunction_of_negand (h (.closed :: rest)) (by simp)
  cases j with
  | and => exact conj
  | or => exact Sql.disjunction_of_conjunction conj (by simp)

theorem gives_level_cons (j : Junction) (h : IsUnit ts a) (hus : Gives (j.level us) b rest) :
    Gives (j.level (ts ++ .keyword j.keyword :: us)) (j.combine a b) rest := by
  cases j with
  | and => exact Sql.conjunction_and (h _) hus
  | or => exact Sql.disjunction_or (Sql.conjunction_of_negand (h _) (by simp)) hus

theorem gives_disjunction (j : Junction) (h : Gives (j.level ts) a (.closed :: rest)) :
    Gives (Sql.disjunction ts) a (.closed :: rest) := by
  cases j with
  | and => exact Sql.disjunction_of_conjunction h (by simp)
  | or => exact h

theorem holds_combine (j : Junction) (r : Reading D) (params : List Value) (x : Bool)
    (bs : List Bool) (ha : a.holds r params = x) (hb : b.holds r params = j.verdict bs) :
    (j.combine a b).holds r params = j.verdict (x :: bs) := by
  cases j <;> simp [combine, Clause.holds, ha, hb, verdict]

theorem lex_separator {quote : Char} (hq : quote = '\x60' ∨ quote = '"') (j : Junction) (rank : Nat)
    (cs : List Char) :
    lex quote rank .nothing (j.separator ++ cs) =
      .keyword j.keyword :: lex quote rank .nothing cs := by
  cases j <;> rcases hq with rfl | rfl <;> rfl

theorem apart_separator (j : Junction) (cs : List Char) : Sql.Apart (j.separator ++ cs) := by
  cases j <;> exact Sql.apart_cons (.inl rfl) _

end Junction

namespace Fragment

variable {r : Reading D} {d : Dialect} {f g : Fragment} {rank : Nat} {ts us : List Token}
  {a b : Clause} {x : Bool}

theorem Spells.blank_append (h : f.Spells r rank ts a x) :
    ((blank f.dialect).append f).Spells r rank ts a x where
  lex := by
    have chars (mark : Nat → List Char) : ((blank f.dialect).append f).chars mark = f.chars mark := by
      rw [chars_append]
      rfl
    rw [dialect_append, dialect_blank, params_append, params_blank, List.nil_append]
    intro rest hrest
    rw [chars]
    exact h.lex rest hrest
  holds := by
    rw [params_append, params_blank, List.nil_append]
    exact h.holds

/-- Two texts with a separator between them. -/
theorem Spells.append (hd : Sql.IsLegible f.dialect) (j : Junction) {bs : List Bool}
    (hf : f.Spells r rank ts a x)
    (hg : g.Spells r (rank + f.params.length) us b (j.verdict bs)) (hdg : g.dialect = f.dialect) :
    ((f.write j.separator).append g).Spells r rank (ts ++ .keyword j.keyword :: us)
      (j.combine a b) (j.verdict (x :: bs)) where
  lex := by
    intro rest hrest
    have shifted : (fun index => f.dialect.placeholder (index + f.params.length + rank + 1)) =
        fun index => f.dialect.placeholder (index + (rank + f.params.length) + 1) := by
      funext index
      congr 1
      omega
    have second := hg.lex rest hrest
    rw [hdg] at second
    rw [dialect_append, dialect_write, chars_append, params_append, params_write, chars_write,
      shifted, List.append_assoc, List.append_assoc, hf.lex _ (j.apart_separator _),
      j.lex_separator hd.quote, second, List.length_append, List.append_assoc, Nat.add_assoc]
    rfl
  holds := by
    intro params hparams
    rw [params_append, params_write] at hparams
    obtain ⟨after, hparams⟩ := hparams
    refine j.holds_combine r params x bs (hf.holds params ⟨g.params ++ after, ?_⟩)
      (hg.holds params ⟨after, ?_⟩)
    · rw [← hparams, List.append_assoc]
    · rw [← List.drop_drop, ← hparams, List.append_assoc, List.drop_left]

theorem Spells.bracketed (hd : Sql.IsLegible f.dialect) (h : f.Spells r rank ts a x) :
    ((blank f.dialect).bracketed f).Spells r rank (.opened :: ts ++ [.closed]) a x where
  lex := by
    intro rest hrest
    have text (mark : Nat → List Char) :
        ((blank f.dialect).bracketed f).chars mark = '(' :: (f.chars mark ++ [')']) := by
      rw [Fragment.bracketed, chars_write, chars_append, chars_write]
      rfl
    rw [dialect_bracketed, dialect_blank, params_bracketed, params_blank, List.nil_append, text,
      List.cons_append, List.append_assoc, List.singleton_append, Sql.lex_punctuation hd.quote rfl,
      h.lex _ (Sql.apart_cons (by decide) _), Sql.lex_punctuation hd.quote rfl]
    simp
  holds := by
    rw [params_bracketed, params_blank, List.nil_append]
    exact h.holds

theorem Denotes.blank_append (h : f.Denotes r x) : ((blank f.dialect).append f).Denotes r x := by
  intro rank
  obtain ⟨ts, c, hs, hu⟩ := h rank
  exact ⟨ts, c, hs.blank_append, hu⟩

end Fragment

/-- A member of a group whose text is one clause without further brackets. -/
structure Operand.Denotes (r : Reading D) (d : Dialect) (p : Operand) (b : Bool) : Prop where
  loose : p.loose = false
  dialect : p.fragment.dialect = d
  clause : p.fragment.Denotes r b

section Group

variable {r : Reading D} {d : Dialect}

theorem Operand.Denotes.addOperand {p : Operand} {b : Bool} (h : p.Denotes r d b) :
    (Fragment.blank d).addOperand p = (Fragment.blank d).append p.fragment := by
  rw [Fragment.addOperand, h.loose]
  rfl

/-- The members of a group with their separators, up to the bracket that closes the group. -/
theorem Fragment.exists_spells_addJoined (hd : Sql.IsLegible d) (j : Junction) {p : Operand}
    {ps : List Operand} {b : Bool} {bs : List Bool} (hp : p.Denotes r d b)
    (hps : List.Forall₂ (Operand.Denotes r d) ps bs) (rank : Nat) :
    ∃ ts c, ((blank d).addJoined j.separator (p :: ps)).Spells r rank ts c (j.verdict (b :: bs)) ∧
      ∀ rest, Gives (j.level (ts ++ .closed :: rest)) c (.closed :: rest) := by
  induction hps generalizing p b rank with
  | nil =>
    obtain ⟨ts, c, hs, hu⟩ := hp.clause rank
    have alone : j.verdict [b] = b := by cases j <;> simp [Junction.verdict]
    rw [addJoined, hp.addOperand, alone]
    have first := hs.blank_append
    rw [hp.dialect] at first
    exact ⟨ts, c, first, fun rest => j.gives_level_single hu⟩
  | @cons q x qs xs hq hqs ih =>
    obtain ⟨ts, a, hs, hu⟩ := hp.clause rank
    obtain ⟨us, c, hus, hc⟩ := ih hq (rank + p.fragment.params.length)
    have first := hs.blank_append
    rw [hp.dialect] at first
    have apart := append_addJoined (((blank d).append p.fragment).write j.separator) (blank d)
      j.separator (q :: qs)
    rw [append_blank] at apart
    have split : (blank d).addJoined j.separator (p :: q :: qs) =
        (((blank d).append p.fragment).write j.separator).append
          ((blank d).addJoined j.separator (q :: qs)) := by
      rw [← apart, ← hp.addOperand]
      rfl
    rw [split]
    refine ⟨_, _, Spells.append hd j first hus (dialect_addJoined _ _ _), fun rest => ?_⟩
    rw [List.append_assoc, List.cons_append]
    exact j.gives_level_cons hu (hc rest)

/-- A group of members that are clauses is a clause of its own. -/
theorem Fragment.denotes_addGroup (hd : Sql.IsLegible d) (j : Junction) {ps : List Operand}
    {bs : List Bool} (h : List.Forall₂ (Operand.Denotes r d) (shown ps) bs) {b : Bool}
    (hb : joined j.verdict bs = some b) :
    ((blank d).addGroup j.separator ps).Denotes r d b := by
  obtain ⟨full, rfl⟩ := joined_eq_some_iff.mp hb
  match hs : shown ps, bs, h with
  | [], [], _ => exact absurd rfl full
  | [p], [x], .cons hp .nil =>
    have alone : j.verdict [x] = x := by cases j <;> simp [Junction.verdict]
    have clause := hp.clause.blank_append
    rw [hp.dialect] at clause
    rw [addGroup_of_shown_single hs, alone]
    exact ⟨hp.loose, rfl, clause⟩
  | p :: q :: qs, x :: y :: ys, .cons hp hqs =>
    rw [addGroup_of_shown_many hs]
    refine ⟨rfl, ?_, fun rank => ?_⟩
    · rw [dialect_write, dialect_addJoined, dialect_write, dialect_blank]
    · obtain ⟨ts, c, hs, hc⟩ := exists_spells_addJoined hd j hp hqs rank
      have dialect : ((blank d).addJoined j.separator (p :: q :: qs)).dialect = d :=
        dialect_addJoined _ _ _
      have bracketed := hs.bracketed (dialect.symm ▸ hd)
      have split : (((blank d).write ['(']).addJoined j.separator (p :: q :: qs)).write [')'] =
          (blank d).bracketed ((blank d).addJoined j.separator (p :: q :: qs)) := by
        have here := append_addJoined ((blank d).write ['(']) (blank d) j.separator (p :: q :: qs)
        rw [append_blank] at here
        rw [here, Fragment.bracketed]
      rw [dialect] at bracketed
      rw [split]
      exact ⟨_, c, bracketed, Sql.isUnit_bracketed fun rest => j.gives_disjunction (hc rest)⟩

theorem Predicate.denotes (hd : Sql.IsLegible d) {e : Expr} {c : Column} {p : Predicate}
    (h : Expr.TakesForm r d e c p) :
    (e.write (.blank d)).Denotes r d (p.holds r (r.value (.column c))) := by
  rw [h.written]
  refine ⟨rfl, by rw [dialect_write, Expr.dialect_fragment], fun rank => ?_⟩
  have unbound : ((Expr.column c).fragment d).params = [] := by
    rw [Expr.fragment_column, Fragment.params_writeColumn, Fragment.params_blank]
  refine ⟨c.tokens ++ (p.leadTokens ++ p.markTokens rank), p.clause c.term rank, ⟨?_, ?_⟩,
    isUnit_predicate c p⟩
  · intro rest hrest
    rw [dialect_write, Expr.dialect_fragment, chars_write, params_write, unbound, List.length_nil,
      Nat.zero_add, Expr.chars_fragment_column hd h.plain, List.nil_append]
    exact lex_predicate hd c p hrest
  · rw [params_write, unbound, List.nil_append]
    exact fun params hparams => holds_clause h.plain h.values hparams

/-- The members that are written are clauses with the truth values of the children. -/
theorem forall₂_shown_writeAll {es : List Expr}
    (h : ∀ e ∈ es, ∀ b, r.holds? d e = some b → (e.write (.blank d)).Denotes r d b) :
    List.Forall₂ (Operand.Denotes r d) (Fragment.shown (es.map fun e => e.write (.blank d)))
      (r.verdicts d es) := by
  induction es with
  | nil => exact .nil
  | cons e es ih =>
    have others := ih fun c hc => h c (List.mem_cons_of_mem e hc)
    rw [Reading.verdicts, List.map_cons, Fragment.shown, List.filter_cons]
    cases hb : r.holds? d e with
    | none =>
      have void : (e.write (.blank d)).fragment.isVoid = true := (r.holds?_eq_none_iff d).mp hb
      simp only [void, Bool.not_true, Bool.false_eq_true, if_false]
      exact others
    | some b =>
      have full : (e.write (.blank d)).fragment.isVoid = false := by
        refine Bool.eq_false_iff.mpr fun hv => ?_
        rw [(r.holds?_eq_none_iff d).mpr hv] at hb
        cases hb
      simp only [full, Bool.not_false, if_true]
      exact .cons (h e List.mem_cons_self b hb) others

end Group

namespace Expr

/-- Trees of conjunctions, disjunctions and negations of one condition over predicates and absent
conditions. -/
inductive IsFilter : Expr → Prop where
  | empty : IsFilter .empty
  | predicate {e : Expr} (h : e.IsPredicate) : IsFilter e
  | and {es : List Expr} (h : ∀ e ∈ es, IsFilter e) : IsFilter (.and es)
  | or {es : List Expr} (h : ∀ e ∈ es, IsFilter e) : IsFilter (.or es)
  | not {e : Expr} (h : IsFilter e) : IsFilter (.not [e])

/-- Trees with no condition but absent ones. -/
inductive IsBare : Expr → Prop where
  | empty : IsBare .empty
  | and {es : List Expr} (h : ∀ e ∈ es, IsBare e) : IsBare (.and es)
  | or {es : List Expr} (h : ∀ e ∈ es, IsBare e) : IsBare (.or es)
  | not {es : List Expr} (h : ∀ e ∈ es, IsBare e) : IsBare (.not es)

theorem isFilter_and_iff {es : List Expr} : (Expr.and es).IsFilter ↔ ∀ e ∈ es, e.IsFilter := by
  constructor
  · intro h
    cases h with
    | predicate h => cases h
    | and h => exact h
  · exact .and

theorem isFilter_or_iff {es : List Expr} : (Expr.or es).IsFilter ↔ ∀ e ∈ es, e.IsFilter := by
  constructor
  · intro h
    cases h with
    | predicate h => cases h
    | or h => exact h
  · exact .or

theorem isBare_and_iff {es : List Expr} : (Expr.and es).IsBare ↔ ∀ e ∈ es, e.IsBare := by
  constructor
  · rintro ⟨⟩
    assumption
  · exact .and

theorem isBare_or_iff {es : List Expr} : (Expr.or es).IsBare ↔ ∀ e ∈ es, e.IsBare := by
  constructor
  · rintro ⟨⟩
    assumption
  · exact .or

theorem isBare_not_iff {es : List Expr} : (Expr.not es).IsBare ↔ ∀ e ∈ es, e.IsBare := by
  constructor
  · rintro ⟨⟩
    assumption
  · exact .not

theorem isFilter_negations {es : List Expr} (h : ∀ e ∈ es, e.IsFilter)
    (hn : ∀ e ∈ es, ∀ n, e.negation? = some n → n.IsFilter) : ∀ n ∈ negations es, n.IsFilter := by
  rw [negations_eq_map]
  intro n hmem
  obtain ⟨e, he, rfl⟩ := List.mem_map.mp hmem
  cases hneg : e.negation? with
  | none => exact .not (h e he)
  | some m => exact hn e he m hneg

/-- The negated form of a filter is one. -/
theorem IsFilter.of_negation? {e n : Expr} (h : e.IsFilter) (hn : e.negation? = some n) :
    n.IsFilter := by
  induction h generalizing n with
  | empty => cases hn
  | predicate h => exact .predicate (h.of_negation? hn)
  | and h ih =>
    obtain rfl := Option.some.inj hn
    exact .or (isFilter_negations h fun e he n => ih e he)
  | or h ih =>
    obtain rfl := Option.some.inj hn
    exact .and (isFilter_negations h fun e he n => ih e he)
  | not h ih =>
    obtain rfl := Option.some.inj hn
    exact .and (by simpa using h)

variable {d : Dialect}

theorem IsFilter.settled {e : Expr} (h : e.IsFilter) (negated : Bool) :
    e.settled d negated = true := by
  induction h generalizing negated with
  | empty => rfl
  | predicate h => cases h <;> rfl
  | and h ih =>
    rw [Expr.settled, allSettled_iff]
    exact fun e he => ih e he negated
  | or h ih =>
    rw [Expr.settled, allSettled_iff]
    exact fun e he => ih e he negated
  | @not e h ih =>
    have short : ([e].filter fun c => !(c.fragment d).isVoid).length ≤ 1 := List.length_filter_le _ _
    rw [Expr.settled, allSettled, allSettled, ih, Bool.and_true, Bool.and_true, Bool.or_eq_true,
      decide_eq_true_eq]
    exact .inr short

theorem IsPredicate.negation?_ne_none {e : Expr} (h : e.IsPredicate) : e.negation? ≠ none := by
  cases h <;> exact Option.some_ne_none _

theorem IsPredicate.isVoid {e : Expr} (h : e.IsPredicate) : (e.fragment d).isVoid = false := by
  cases h with
  | comparison => exact isVoid_fragment_comparison _ _ _
  | comparisonList => exact isVoid_fragment_comparison _ _ _
  | membership => exact isVoid_fragment_membership _ _ _
  | membershipList => exact isVoid_fragment_membership _ _ _
  | between => exact isVoid_fragment_between _ _ _ _

/-- A filter writes nothing if and only if it has no condition but absent ones. -/
theorem IsFilter.isVoid_iff {e : Expr} (h : e.IsFilter) :
    (e.fragment d).isVoid = true ↔ e.IsBare := by
  induction h with
  | empty => exact iff_of_true isVoid_fragment_empty .empty
  | predicate h =>
    rw [h.isVoid]
    refine iff_of_false Bool.false_ne_true fun hbare => ?_
    cases h <;> cases hbare
  | and h ih =>
    rw [isVoid_fragment_and, List.all_eq_true, isBare_and_iff]
    exact forall₂_congr ih
  | or h ih =>
    rw [isVoid_fragment_or, List.all_eq_true, isBare_or_iff]
    exact forall₂_congr ih
  | @not e h ih =>
    rw [isVoid_fragment_not, List.all_cons, List.all_nil, Bool.and_true, ih, isBare_not_iff,
      List.forall_mem_singleton]

theorem IsFilter.not_child {es : List Expr} (h : (Expr.not es).IsFilter) :
    ∃ e, es = [e] ∧ e.IsFilter := by
  cases h with
  | predicate h => cases h
  | @not e h => exact ⟨e, rfl, h⟩

variable {r : Reading D}

/-- What a filter writes is one clause with the truth value of the filter. -/
theorem IsFilter.denotes (hd : Sql.IsLegible d) {e : Expr} (he : e.IsFilter) {b : Bool}
    (hb : r.holds? d e = some b) : (e.write (.blank d)).Denotes r d b := by
  induction e using writing_induction generalizing b with
  | steps e hg inner =>
    cases he with
    | empty =>
      rw [(r.holds?_eq_none_iff d).mpr isVoid_fragment_empty] at hb
      cases hb
    | predicate h =>
      obtain ⟨c, p, hp⟩ := h.exists_form hd r
      obtain rfl := Option.some.inj (hp.holds.symm.trans hb)
      exact Predicate.denotes hd hp
    | and h => cases hg
    | or h => cases hg
    | not h => cases hg
  | and es ih =>
    have children := isFilter_and_iff.mp he
    rw [write_and]
    rw [Reading.holds?] at hb
    exact Fragment.denotes_addGroup hd .and
      (forall₂_shown_writeAll fun c hc x hx => ih c hc (children c hc) hx) hb
  | or es ih =>
    have children := isFilter_or_iff.mp he
    rw [write_or]
    rw [Reading.holds?] at hb
    exact Fragment.denotes_addGroup hd .or
      (forall₂_shown_writeAll fun c hc x hx => ih c hc (children c hc) hx) hb
  | not es ih ihn =>
    obtain ⟨c, rfl, hc⟩ := he.not_child
    rw [Reading.holds?_not_singleton] at hb
    cases hn : c.negation? with
    | none =>
      -- Only an absent condition has no negated form.
      cases hc with
      | empty =>
        rw [(r.holds?_eq_none_iff d).mpr isVoid_fragment_empty] at hb
        cases hb
      | predicate h => exact absurd hn h.negation?_ne_none
      | and h => cases hn
      | or h => cases hn
      | not h => cases hn
    | some n =>
      have negated : r.holds? d n = some b := by
        rw [Reading.holds?_of_negation? hn, Reading.refuted?,
          Reading.undecided_of_settled (hc.settled true), ← hb]
        simp
      have member := ihn c List.mem_cons_self n hn (hc.of_negation? hn) negated
      have shown : List.Forall₂ (Operand.Denotes r d) (Fragment.shown [n.write (.blank d)])
          (r.verdicts d [n]) := by
        refine forall₂_shown_writeAll (List.forall_mem_singleton.mpr fun x hx => ?_)
        obtain rfl := Option.some.inj (hx.symm.trans negated)
        exact member
      have alone : joined Junction.and.verdict (r.verdicts d [n]) = some b := by
        simp [Reading.verdicts, negated, joined, Junction.verdict]
      rw [write_not, List.map_singleton, Fragment.dialect_blank, refusal_of_some hn]
      exact Fragment.denotes_addGroup hd .and shown alone

end Expr

namespace Expr

variable {d : Dialect} {r : Reading D}

/-- A statement is read as the clause that its text is. -/
theorem read?_of_denotes {e : Expr} {b : Bool} (h : (e.write (.blank d)).Denotes r d b) :
    ∃ c, Clause.read? d.quote (e.statement d).sql = some c ∧
      c.holds r (e.statement d).params = b := by
  obtain ⟨ts, c, hs, hu⟩ := h.clause 0
  have text : (e.statement d).sql = (e.fragment d).chars fun index => d.placeholder (index + 1) := by
    rw [statement, Fragment.sql_finish, Fragment.sql, dialect_fragment]
  have read := hs.lex [] Sql.apart_nil
  rw [h.dialect, List.append_nil] at read
  have whole : Sql.tokens d.quote (e.statement d).sql = ts := by
    rw [Sql.tokens, text]
    exact read.trans (List.append_nil ts)
  refine ⟨c, Sql.read?_of_isUnit (whole ▸ hu), hs.holds _ ?_⟩
  rw [List.drop_zero]
  exact List.prefix_refl _

theorem read?_nil (quote : Char) : Clause.read? quote [] = none := by
  simp [Clause.read?, Sql.tokens, Sql.lex, Sql.Pending.tokens, Sql.disjunction, Sql.conjunction,
    Sql.negand, Sql.predicate, Sql.term]

/-- A filter with a predicate in it has a truth value, which is that of a clause read from its
text. -/
theorem IsFilter.exists_read (hd : Sql.IsLegible d) {e : Expr} (he : e.IsFilter)
    (full : ¬e.IsBare) (r : Reading D) :
    ∃ c, Clause.read? d.quote (e.statement d).sql = some c ∧
      r.holds? d e = some (c.holds r (e.statement d).params) := by
  have verdict : r.holds? d e ≠ none := fun hnone =>
    full (he.isVoid_iff.mp ((r.holds?_eq_none_iff d).mp hnone))
  obtain ⟨b, hb⟩ := Option.ne_none_iff_exists'.mp verdict
  obtain ⟨c, hc, hx⟩ := read?_of_denotes (he.denotes hd hb)
  exact ⟨c, hc, by rw [hb, hx]⟩

theorem IsFilter.sql_eq_nil_iff (hd : Sql.IsLegible d) {e : Expr} (he : e.IsFilter) :
    (e.statement d).sql = [] ↔ e.IsBare := by
  constructor
  · intro hsql
    by_contra full
    let r : Reading Nat := ⟨fun _ => 0, fun _ => 0, fun _ => 0, fun _ _ => false, fun _ => false⟩
    obtain ⟨c, hc, -⟩ := he.exists_read hd full r
    rw [hsql, read?_nil] at hc
    cases hc
  · intro hbare
    rw [statement, Fragment.sql_finish]
    exact Fragment.chars_of_isVoid (he.isVoid_iff.mpr hbare) _

end Expr

/-- The text of a filter is read as one clause that is true where the filter is, and this is the same
clause whatever values its scalars have. A filter has no text if and only if it has no predicate. -/
theorem statement_read_as_filter {d : Dialect} (hd : d ∈ [Dialect.mysql, .postgres, .sqlite])
    {e : Expr} (he : e.IsFilter) :
    ((e.statement d).sql = [] ↔ e.IsBare) ∧
      (¬e.IsBare → ∃ c, ∀ e' : Expr, e'.IsFilter → e'.outline = e.outline →
        Clause.read? d.quote (e'.statement d).sql = some c ∧
          ∀ {D : Type} [LinearOrder D] (r : Reading D),
            r.holds? d e' = some (c.holds r (e'.statement d).params)) := by
  have legible := Sql.isLegible_of_mem hd
  refine ⟨he.sql_eq_nil_iff legible, fun full => ?_⟩
  let r₀ : Reading Nat := ⟨fun _ => 0, fun _ => 0, fun _ => 0, fun _ _ => false, fun _ => false⟩
  obtain ⟨c, hc, -⟩ := he.exists_read legible full r₀
  refine ⟨c, fun e' he' hout => ?_⟩
  have same : (e'.statement d).sql = (e.statement d).sql := (Expr.sql_and_slots_of_outline hout d).1
  have full' : ¬e'.IsBare := by
    rw [← he'.sql_eq_nil_iff legible, same, he.sql_eq_nil_iff legible]
    exact full
  refine ⟨by rw [same, hc], fun r => ?_⟩
  obtain ⟨c', hc', hr⟩ := he'.exists_read legible full' r
  obtain rfl : c' = c := by
    rw [same, hc] at hc'
    exact (Option.some.inj hc').symm
  exact hr

/-- A negation, an absent condition and a disjunction within a conjunction: the clause read from the
text holds where both columns and all scalars are two. -/
theorem statement_read_as_filter_nested :
    let a : Expr := .column (.named "a")
    let b : Expr := .column { table := some "t", name := "b" }
    let e : Expr := .and [.not [.comparison .gt a (.value (.int 5))], .empty,
      .or [.membership b [.value (.int 1), .value (.int 2)] false,
        .between a (.value (.int 1)) (.value (.int 3)) true]]
    let r : Reading Nat :=
      { value := fun _ => 2, scalar := fun _ => 2, row := fun _ => 0, like := fun _ _ => false,
        truth := fun _ => false }
    Dialect.postgres ∈ [Dialect.mysql, .postgres, .sqlite] ∧ e.IsFilter ∧
      ∃ c, Clause.read? '"' (e.statement .postgres).sql = some c ∧
        c.holds r (e.statement .postgres).params = true := by
  intro a b e r
  have named : Column.read "a" = .ok (.named "a") := by rfl
  have ofTable : Column.read "t.b" = .ok { table := some "t", name := "b" } := by rfl
  have dialect : Dialect.postgres ∈ [Dialect.mysql, .postgres, .sqlite] := by simp
  have first : (Expr.not [.comparison .gt a (.value (.int 5))]).IsFilter :=
    .not (.predicate (.comparison named (by decide) (by simp)))
  have member : (Expr.membership b ([Value.int 1, .int 2].map .value) false).IsPredicate :=
    .membership ofTable (by decide) (by simp)
  have range : (Expr.between a (.value (.int 1)) (.value (.int 3)) true).IsPredicate :=
    .between named (by decide) (by simp) (by simp)
  have filter : e.IsFilter := by
    refine .and (List.forall_mem_cons.mpr ⟨first, List.forall_mem_cons.mpr ⟨.empty, ?_⟩⟩)
    refine List.forall_mem_singleton.mpr (.or (List.forall_mem_cons.mpr ⟨.predicate member, ?_⟩))
    exact List.forall_mem_singleton.mpr (.predicate range)
  have full : ¬e.IsBare := by
    rw [← filter.isVoid_iff (d := .postgres)]
    simp [e, Expr.isVoid_fragment_and, Expr.isVoid_fragment_not, Expr.isVoid_fragment_comparison]
  have verdict : r.holds? .postgres e = some true := by
    simp [e, r, Reading.holds?, Reading.verdicts, Reading.compares, Reading.isAmong, Reading.arg,
      joined, Expr.isVoid_fragment_empty]
  obtain ⟨c, hc⟩ := (statement_read_as_filter dialect filter).2 full
  obtain ⟨read, holds⟩ := hc e filter rfl
  exact ⟨dialect, filter, c, read, (Option.some.inj (verdict.symm.trans (holds r))).symm⟩

end SqlClause
