import SqlClause.Proofs.ClauseGrammar
import SqlClause.Proofs.ColumnText

/-! # The forms of predicates over a column

Comparisons, memberships and ranges with bound scalars are written in six forms. -/

namespace SqlClause

/-- What is written after the column of a predicate. -/
inductive Predicate where
  | relation (op : Sql.Relation) (v : Value)
  | like (v : Value) (negated : Bool)
  | isNull (negated : Bool)
  | amongNone
  | among (v : Value) (vs : List Value) (negated : Bool)
  | between (low high : Value) (negated : Bool)

namespace Sql.Relation

def spelling : Relation → String
  | .eq => "="
  | .ne => "<>"
  | .gt => ">"
  | .ge => ">="
  | .lt => "<"
  | .le => "<="

end Sql.Relation

namespace Predicate

def values : Predicate → List Value
  | .relation _ v => [v]
  | .like v _ => [v]
  | .isNull _ => []
  | .amongNone => []
  | .among v vs _ => v :: vs
  | .between low high _ => [low, high]

/-- The text between the column and the first scalar. -/
def lead : Predicate → String
  | .relation op _ => " " ++ op.spelling ++ " "
  | .like _ negated => if negated then " NOT LIKE " else " LIKE "
  | .isNull negated => if negated then " IS NOT NULL" else " IS NULL"
  | .amongNone => " IN (NULL)"
  | .among _ _ negated => if negated then " NOT IN (" else " IN ("
  | .between _ _ negated => if negated then " NOT BETWEEN " else " BETWEEN "

def write (f : Fragment) (p : Predicate) : Fragment :=
  let f := f.writeString p.lead
  match p with
  | .relation _ v | .like v _ => f.bind v
  | .isNull _ | .amongNone => f
  | .among v vs _ => (f.bindAll (v :: vs)).write [')']
  | .between low high _ => ((f.bind low).writeString " AND ").bind high

variable {D : Type} [LinearOrder D]

/-- The truth of a predicate where its column has a value. -/
def holds (r : Reading D) (x : D) : Predicate → Bool
  | .relation op v => op.relates x (r.scalar v)
  | .like v negated => r.like x (r.scalar v) != negated
  | .isNull negated => negated
  | .amongNone => false
  | .among v vs negated => ((v :: vs).any fun w => x = r.scalar w) != negated
  | .between low high negated => decide (r.scalar low ≤ x ∧ x ≤ r.scalar high) != negated

@[simp] theorem dialect_write (f : Fragment) (p : Predicate) : (p.write f).dialect = f.dialect := by
  cases p <;> simp [write, Fragment.writeString]

@[simp] theorem params_write (f : Fragment) (p : Predicate) :
    (p.write f).params = f.params ++ p.values := by
  cases p <;> simp [write, values, Fragment.writeString]

end Predicate

namespace Expr

open Step (say operand)

/-- Predicates over a column that is read from a name, with bound scalars. A null is only asked for
by equality, and a list is only a set. -/
inductive IsPredicate : Expr → Prop where
  | comparison {op : Operator} {path : String} {c : Column} {v : Value}
      (hc : Column.read path = .ok c) (hstar : c.name ≠ "*")
      (hv : v = .null → op = .eq ∨ op = .ne) : IsPredicate (.comparison op (.column c) (.value v))
  | comparisonList {op : Operator} {path : String} {c : Column} {vs : List Value}
      (hc : Column.read path = .ok c) (hstar : c.name ≠ "*")
      (hop : op ∈ [Operator.eq, .ne, .isIn, .notIn]) (hvs : .null ∉ vs) :
      IsPredicate (.comparison op (.column c) (.list vs))
  | membership {path : String} {c : Column} {vs : List Value} {negated : Bool}
      (hc : Column.read path = .ok c) (hstar : c.name ≠ "*") (hvs : .null ∉ vs) :
      IsPredicate (.membership (.column c) (vs.map .value) negated)
  | membershipList {path : String} {c : Column} {vs : List Value} {negated : Bool}
      (hc : Column.read path = .ok c) (hstar : c.name ≠ "*") (hvs : .null ∉ vs) :
      IsPredicate (.membership (.column c) [.list vs] negated)
  | between {path : String} {c : Column} {low high : Value} {negated : Bool}
      (hc : Column.read path = .ok c) (hstar : c.name ≠ "*") (hlow : low ≠ .null)
      (hhigh : high ≠ .null) :
      IsPredicate (.between (.column c) (.value low) (.value high) negated)

/-- The negated form of a predicate is one. -/
theorem IsPredicate.of_negation? {e n : Expr} (h : e.IsPredicate) (hn : e.negation? = some n) :
    n.IsPredicate := by
  cases h with
  | comparison hc hstar hv =>
    obtain rfl := Option.some.inj hn
    refine .comparison hc hstar fun hnull => ?_
    rcases hv hnull with rfl | rfl
    · exact .inr rfl
    · exact .inl rfl
  | comparisonList hc hstar hop hvs =>
    obtain rfl := Option.some.inj hn
    refine .comparisonList hc hstar ?_ hvs
    simp only [List.mem_cons, List.not_mem_nil, or_false] at hop
    rcases hop with rfl | rfl | rfl | rfl <;> decide
  | membership hc hstar hvs =>
    obtain rfl := Option.some.inj hn
    exact .membership hc hstar hvs
  | membershipList hc hstar hvs =>
    obtain rfl := Option.some.inj hn
    exact .membershipList hc hstar hvs
  | between hc hstar hlow hhigh =>
    obtain rfl := Option.some.inj hn
    exact .between hc hstar hlow hhigh

section Forms

variable {D : Type} [LinearOrder D] {r : Reading D} {d : Dialect} {c : Column}

/-- Steps that write a predicate, and its truth value where the column is `x`. -/
structure HasForm (r : Reading D) (steps : List Step) (x : D) (b : Bool) (p : Predicate) :
    Prop where
  values : .null ∉ p.values
  written : ∀ f : Fragment, steps.foldl Step.write f = p.write f
  holds : p.holds r x = b

theorem write_operand_column (hd : Sql.IsLegible d) (h : c.IsPlain) :
    Step.write (.blank d) (operand (.column c)) = (Expr.column c).fragment d := by
  have atomic : (((Expr.column c).write (.blank d)).fragment).isAtomic = true :=
    isAtomic_fragment_column hd h
  rw [operand, Step.write, Arg.write]
  simp only [isCase, Bool.false_eq_true, if_false, Fragment.dialect_blank,
    Fragment.appendOperand, atomic, if_true]
  rw [← fragment, fragment_column, ← Fragment.append_writeColumn _ _ rfl, Fragment.append_blank]

theorem foldl_write_commaSteps (vs : List Value) (f : Fragment) :
    (commaSteps (vs.map .value)).foldl Step.write f = f.bindAll vs := by
  induction vs generalizing f with
  | nil => rfl
  | cons v vs ih =>
    cases vs with
    | nil => simp [commaSteps, Step.write, Arg.write, Fragment.bindAll]
    | cons w vs =>
      have comma := ih ((f.bind v).write [','])
      simpa [commaSteps, Step.write, Arg.write, Fragment.bindAll, say] using comma

theorem isAmong_map_value (x : D) (vs : List Value) :
    r.isAmong x (vs.map .value) = vs.any fun v => x = r.scalar v := by
  match vs with
  | [] => rfl
  | [v] => rfl
  | v :: w :: vs =>
    have several : r.isAmong x ((v :: w :: vs).map .value) =
        ((v :: w :: vs).map Arg.value).any fun a => x = r.arg a := rfl
    rw [several, List.any_map]
    rfl

/-- No values, one value and several values are written in three ways, a list in a fourth. -/
theorem hasForm_membershipSteps (x : D) (negated : Bool) {vs : List Value} (hvs : .null ∉ vs)
    {values : List Arg} (h : values = vs.map .value ∨ values = [.list vs]) :
    ∃ steps p, membershipSteps (.column c) values negated = operand (.column c) :: steps ∧
      HasForm r steps x (r.isAmong x values != negated) p := by
  have none : ∃ p, HasForm r [say (if negated then " IS NOT NULL" else " IN (NULL)")] x
      (false != negated) p := by
    cases negated with
    | false => exact ⟨.amongNone, by simp [Predicate.values], fun f => rfl, rfl⟩
    | true => exact ⟨.isNull true, by simp [Predicate.values], fun f => rfl, rfl⟩
  rcases h with rfl | rfl
  · match vs with
    | [] =>
      obtain ⟨p, hp⟩ := none
      exact ⟨_, p, rfl, hp⟩
    | [v] =>
      refine ⟨_, .relation (if negated then .ne else .eq) v, rfl, hvs, fun f => ?_, ?_⟩
      · cases negated <;> simp [Step.write, Arg.write, Predicate.write, Predicate.lead, say,
          Fragment.writeString, Sql.Relation.spelling]
      · rw [isAmong_map_value]
        cases negated <;> simp [Predicate.holds, Sql.Relation.relates]
    | v :: w :: vs =>
      refine ⟨say (if negated then " NOT IN (" else " IN (") ::
          (commaSteps ((v :: w :: vs).map .value) ++ [say ")"]),
        .among v (w :: vs) negated, rfl, hvs, fun f => ?_, ?_⟩
      · have commas := foldl_write_commaSteps (v :: w :: vs)
          (f.writeString (if negated then " NOT IN (" else " IN ("))
        rw [List.foldl_cons, List.foldl_append]
        exact congrArg (·.write [')']) commas
      · rw [isAmong_map_value, Predicate.holds]
  · cases vs with
    | nil =>
      obtain ⟨p, hp⟩ := none
      exact ⟨_, p, rfl, hp⟩
    | cons v vs =>
      refine ⟨_, .among v vs negated, rfl, hvs, fun f => ?_, rfl⟩
      simp only [List.foldl_cons, List.foldl_nil, Step.write, Arg.write, Fragment.bindBracketed,
        List.isEmpty_cons, Bool.false_eq_true, if_false, Predicate.write, Predicate.lead,
        Fragment.writeString, Fragment.write_write, say]
      cases negated <;> rfl

theorem hasForm_comparisonSteps_list (x : D) {op : Operator} {vs : List Value}
    (hop : op ∈ [Operator.eq, .ne, .isIn, .notIn]) (hvs : .null ∉ vs) :
    ∃ steps p, comparisonSteps (.column c) op (.list vs) = operand (.column c) :: steps ∧
      HasForm r steps x (r.compares x op (.list vs)) p := by
  have member (negated : Bool) :=
    hasForm_membershipSteps (r := r) (c := c) x negated hvs (.inr rfl)
  have equality : comparisonSteps (.column c) .eq (.list vs) =
      membershipSteps (.column c) [.list vs] false := comparisonSteps_list _ vs false
  have inequality : comparisonSteps (.column c) .ne (.list vs) =
      membershipSteps (.column c) [.list vs] true := comparisonSteps_list _ vs true
  simp only [List.mem_cons, List.not_mem_nil, or_false] at hop
  rcases hop with rfl | rfl | rfl | rfl
  · rw [equality]
    simpa [Reading.compares, Arg.isNull] using member false
  · rw [inequality]
    simpa [Reading.compares, Arg.isNull] using member true
  · simpa [comparisonSteps, Reading.compares] using member false
  · simpa [comparisonSteps, Reading.compares] using member true

theorem hasForm_comparisonSteps (x : D) {op : Operator} {v : Value}
    (hv : v = .null → op = .eq ∨ op = .ne) :
    ∃ steps p, comparisonSteps (.column c) op (.value v) = operand (.column c) :: steps ∧
      HasForm r steps x (r.compares x op (.value v)) p := by
  by_cases hnull : v = .null
  · subst hnull
    rcases hv rfl with rfl | rfl
    · exact ⟨_, .isNull false, rfl, by simp [Predicate.values], fun f => rfl, rfl⟩
    · exact ⟨_, .isNull true, rfl, by simp [Predicate.values], fun f => rfl, rfl⟩
  · have bound : Value.null ∉ [v] := by simpa using Ne.symm hnull
    have scalar : v.isNull = false := by simpa [Bool.eq_false_iff] using hnull
    by_cases hin : op = .isIn
    · subst hin
      have member := hasForm_membershipSteps (r := r) (c := c) x false bound (.inl rfl)
      simpa [comparisonSteps, Reading.compares] using member
    · by_cases hnotIn : op = .notIn
      · subst hnotIn
        have member := hasForm_membershipSteps (r := r) (c := c) x true bound (.inl rfl)
        simpa [comparisonSteps, Reading.compares] using member
      · rw [comparisonSteps_of_ne_null hin hnotIn hnull]
        have form (p : Predicate) (hp : p.values = [v])
            (hw : ∀ f, p.write f = (f.write (" " ++ op.spelling ++ " ").toList).bind v)
            (hx : p.holds r x = r.compares x op (.value v)) :
            HasForm r [say (" " ++ op.spelling ++ " "), .arg .operand (.value v)] x
              (r.compares x op (.value v)) p :=
          ⟨hp ▸ bound, fun f => by simp [Step.write, Arg.write, say, hw], hx⟩
        have among : r.isAmong x [.value v] = decide (x = r.scalar v) := by
          rw [← List.map_singleton, isAmong_map_value]
          simp
        cases op with
        | eq =>
          refine ⟨_, _, rfl, form (.relation .eq v) rfl (fun f => rfl) ?_⟩
          simp [Predicate.holds, Sql.Relation.relates, Reading.compares, Arg.isNull, scalar, among]
        | ne =>
          refine ⟨_, _, rfl, form (.relation .ne v) rfl (fun f => rfl) ?_⟩
          simp [Predicate.holds, Sql.Relation.relates, Reading.compares, Arg.isNull, scalar, among]
        | gt => exact ⟨_, _, rfl, form (.relation .gt v) rfl (fun f => rfl) rfl⟩
        | ge => exact ⟨_, _, rfl, form (.relation .ge v) rfl (fun f => rfl) rfl⟩
        | lt => exact ⟨_, _, rfl, form (.relation .lt v) rfl (fun f => rfl) rfl⟩
        | le => exact ⟨_, _, rfl, form (.relation .le v) rfl (fun f => rfl) rfl⟩
        | like =>
          refine ⟨_, _, rfl, form (.like v false) rfl (fun f => rfl) ?_⟩
          simp [Predicate.holds, Reading.compares, Reading.arg]
        | notLike =>
          refine ⟨_, _, rfl, form (.like v true) rfl (fun f => rfl) ?_⟩
          simp [Predicate.holds, Reading.compares, Reading.arg]
        | isIn => exact absurd rfl hin
        | notIn => exact absurd rfl hnotIn

theorem hasForm_betweenSteps (x : D) {low high : Value} (negated : Bool) (hlow : low ≠ .null)
    (hhigh : high ≠ .null) :
    HasForm r
      [say (if negated then " NOT BETWEEN " else " BETWEEN "), .arg .operand (.value low),
        say " AND ", .arg .operand (.value high)] x
      (decide (r.scalar low ≤ x ∧ x ≤ r.scalar high) != negated) (.between low high negated) where
  values := by simpa [Predicate.values] using ⟨Ne.symm hlow, Ne.symm hhigh⟩
  written f := by
    simp [Step.write, Arg.write, Predicate.write, Predicate.lead, say, Fragment.writeString]
  holds := rfl

/-- An expression that is written as a predicate over a column and has its truth value. -/
structure TakesForm (r : Reading D) (d : Dialect) (e : Expr) (c : Column) (p : Predicate) :
    Prop where
  plain : c.IsPlain
  values : .null ∉ p.values
  written : e.write (.blank d) = ⟨p.write ((Expr.column c).fragment d), false⟩
  holds : r.holds? d e = some (p.holds r (r.value (.column c)))

theorem takesForm_of_steps (hd : Sql.IsLegible d) (hc : c.IsPlain) {e : Expr} {steps : List Step}
    {b : Bool} {p : Predicate} (hg : e.isGroup = false) (hl : e.isLoose = false)
    (hs : e.steps = operand (.column c) :: steps)
    (hf : HasForm r steps (r.value (.column c)) b p) (hb : r.holds? d e = some b) :
    TakesForm r d e c p where
  plain := hc
  values := hf.values
  written := by
    rw [write_of_isGroup_eq_false hg, hl, hs, List.foldl_cons, write_operand_column hd hc,
      hf.written]
  holds := by rw [hb, hf.holds]

theorem IsPredicate.exists_form {e : Expr} (h : e.IsPredicate) (hd : Sql.IsLegible d)
    (r : Reading D) : ∃ c p, TakesForm r d e c p := by
  cases h with
  | @comparison op path c v hc hstar hv =>
    obtain ⟨steps, p, hs, hf⟩ := hasForm_comparisonSteps (r.value (.column c)) hv
    exact ⟨c, p, takesForm_of_steps hd (Column.isPlain_of_read hc hstar) rfl rfl hs hf rfl⟩
  | @comparisonList op path c vs hc hstar hop hvs =>
    obtain ⟨steps, p, hs, hf⟩ := hasForm_comparisonSteps_list (r.value (.column c)) hop hvs
    exact ⟨c, p, takesForm_of_steps hd (Column.isPlain_of_read hc hstar) rfl rfl hs hf rfl⟩
  | @membership path c vs negated hc hstar hvs =>
    obtain ⟨steps, p, hs, hf⟩ :=
      hasForm_membershipSteps (r.value (.column c)) negated hvs (.inl rfl)
    exact ⟨c, p, takesForm_of_steps hd (Column.isPlain_of_read hc hstar) rfl rfl hs hf rfl⟩
  | @membershipList path c vs negated hc hstar hvs =>
    obtain ⟨steps, p, hs, hf⟩ :=
      hasForm_membershipSteps (r.value (.column c)) negated hvs (.inr rfl)
    exact ⟨c, p, takesForm_of_steps hd (Column.isPlain_of_read hc hstar) rfl rfl hs hf rfl⟩
  | @between path c low high negated hc hstar hlow hhigh =>
    have hf := hasForm_betweenSteps (r := r) (r.value (.column c)) negated hlow hhigh
    exact ⟨c, _, takesForm_of_steps hd (Column.isPlain_of_read hc hstar) rfl rfl rfl hf rfl⟩

end Forms

end Expr

end SqlClause
