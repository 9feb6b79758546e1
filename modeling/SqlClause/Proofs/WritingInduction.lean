import SqlClause.Expr.Render

/-! # Writing as maps and folds, and the induction that follows it

A group writes its children, and under a negation their negated forms; every other expression writes
the expressions among its steps. All of them weigh less than the expression itself. -/

namespace SqlClause

/-- The operator itself or its opposite. -/
def Operator.negatedIf (negated : Bool) (op : Operator) : Operator :=
  if negated then op.negated else op

/-- The fragment after one step. -/
def Step.write (f : Fragment) : Step → Fragment
  | .text cs => f.write cs
  | .name word => f.writeName word
  | .column c => f.writeColumn c
  | .arg mode a => a.write mode f

def Step.arg? : Step → Option Arg
  | .arg _ a => some a
  | _ => none

namespace Expr

def isGroup : Expr → Bool
  | .and _ | .or _ | .not _ => true
  | _ => false

/-- The negation of an expression in a fragment of its own. -/
def refusal (e : Expr) (d : Dialect) : Operand :=
  match e.negation? with
  | some n => n.write (.blank d)
  | none => ⟨(Fragment.blank d).addRefused (e.fragment d) e.isCase, false⟩

theorem refusal_of_some {e n : Expr} (h : e.negation? = some n) (d : Dialect) :
    e.refusal d = n.write (.blank d) := by
  simp [refusal, h]

theorem refusal_of_none {e : Expr} (h : e.negation? = none) (d : Dialect) :
    e.refusal d = ⟨(Fragment.blank d).addRefused (e.fragment d) e.isCase, false⟩ := by
  simp [refusal, h]

end Expr

/-- The steps that write a column: its table, its name, and its output name. -/
def Column.steps (c : Column) : List Step :=
  (c.table.toList.flatMap fun table => [.name table, .text ['.']]) ++
    (if c.raw ∨ c.name = "*" then .text c.name.toList else .name c.name) ::
      c.label.toList.flatMap fun label => [.text [' ', 'A', 'S', ' '], .name label]

theorem Fragment.writeColumn_eq_foldl (f : Fragment) (c : Column) :
    f.writeColumn c = c.steps.foldl Step.write f := by
  obtain ⟨table, name, label, raw⟩ := c
  cases table <;> cases label <;> simp only [Fragment.writeColumn, Column.steps] <;> split <;> rfl

theorem Step.writeAll_eq_foldl (steps : List Step) (f : Fragment) :
    Step.writeAll steps f = steps.foldl Step.write f := by
  induction steps generalizing f with
  | nil => simp [Step.writeAll]
  | cons s steps ih => cases s <;> simp [Step.writeAll, Step.write, ih]

namespace Expr

/-- Arguments are written as they are, or there is one and it only passes on its own. -/
theorem effective_cases (args : List Arg) :
    effective args = args ∨ ∃ (b : Arg) (flat : Bool),
      (args = [.expr (.template "?" [b] flat)] ∨ args = [.verbatim (.template "?" [b] flat)]) ∧
        effective args = [b] := by
  have passed (e : Expr) : passed? e = none ∨ ∃ b flat, e = .template "?" [b] flat := by
    unfold passed?
    split
    · rename_i sql b flat
      by_cases h : sql = "?"
      · exact .inr ⟨b, flat, by rw [h]⟩
      · exact .inl (if_neg h)
    · exact .inl rfl
  unfold effective
  split
  · rename_i e
    rcases passed e with h | ⟨b, flat, rfl⟩
    · exact .inl (by rw [h]; rfl)
    · exact .inr ⟨b, flat, .inl rfl, rfl⟩
  · rename_i e
    rcases passed e with h | ⟨b, flat, rfl⟩
    · exact .inl (by rw [h]; rfl)
    · exact .inr ⟨b, flat, .inr rfl, rfl⟩
  · exact .inl rfl

theorem effective_pair (a b : Arg) : effective [a, b] = [a, b] := by
  cases a <;> rfl

theorem writeAll_eq_map (es : List Expr) (d : Dialect) :
    writeAll es d = es.map fun e => e.write (.blank d) := by
  induction es with
  | nil => simp [writeAll]
  | cons e es ih => simp [writeAll, ih]

theorem refuseAll_eq_map (es : List Expr) (d : Dialect) :
    refuseAll es d = es.map fun e => e.refusal d := by
  induction es with
  | nil => simp [refuseAll]
  | cons e es ih =>
    rw [refuseAll, ih, List.map_cons]
    congr 1
    cases h : e.negation? with
    | none => rw [refusal_of_none h]; split <;> simp_all [fragment]
    | some n => rw [refusal_of_some h]

theorem negations_eq_map (es : List Expr) :
    negations es = es.map fun e => (negation? e).getD (.not [e]) := by
  induction es with
  | nil => rfl
  | cons e es ih => simp [negations, ih]

theorem write_and (es : List Expr) (f : Fragment) :
    (Expr.and es).write f =
      f.addGroup " AND ".toList (es.map fun e => e.write (.blank f.dialect)) := by
  rw [write, writeAll_eq_map]

theorem write_or (es : List Expr) (f : Fragment) :
    (Expr.or es).write f =
      f.addGroup " OR ".toList (es.map fun e => e.write (.blank f.dialect)) := by
  rw [write, writeAll_eq_map]

theorem write_not (es : List Expr) (f : Fragment) :
    (Expr.not es).write f = f.addGroup " AND ".toList (es.map fun e => e.refusal f.dialect) := by
  rw [write, refuseAll_eq_map]

theorem write_of_isGroup_eq_false {e : Expr} (h : e.isGroup = false) (f : Fragment) :
    e.write f = ⟨e.steps.foldl Step.write f, e.isLoose⟩ := by
  rw [← Step.writeAll_eq_foldl]
  cases e with
  | and es => cases h
  | or es => cases h
  | not es => cases h
  | _ => simp [write]

theorem weight_lt_weight_of_expr? {a : Arg} {e : Expr} (h : a.expr? = some e) :
    e.weight < a.weight := by
  cases a <;> simp_all [Arg.expr?, Arg.weight]

theorem weight_le_weights_of_mem {s : Step} {steps : List Step} (h : s ∈ steps) :
    s.weight ≤ Step.weights steps := by
  induction steps with
  | nil => cases h
  | cons t steps ih =>
    rw [Step.weights_cons]
    rcases List.mem_cons.mp h with rfl | h
    · omega
    · have := ih h
      omega

theorem weight_le_of_mem {e : Expr} {es : List Expr} (h : e ∈ es) : e.weight ≤ weights es := by
  induction es with
  | nil => cases h
  | cons c es ih =>
    rw [weights]
    rcases List.mem_cons.mp h with rfl | h
    · omega
    · have := ih h
      omega

/-- An expression among the steps weighs less than the expression that they write. -/
theorem weight_lt_of_mem_steps {e c : Expr} {s : Step} {a : Arg} (hs : s ∈ e.steps)
    (ha : s.arg? = some a) (hc : a.expr? = some c) : c.weight < e.weight := by
  have hsteps := weights_steps_lt e
  have hstep := weight_le_weights_of_mem hs
  have harg := weight_lt_weight_of_expr? hc
  cases s with
  | arg mode b =>
    obtain rfl : b = a := Option.some.inj ha
    rw [Step.weight] at hstep
    omega
  | _ => cases ha

theorem weight_induction {P : Expr → Prop}
    (step : ∀ e : Expr, (∀ c : Expr, c.weight < e.weight → P c) → P e) (e : Expr) : P e :=
  (measure Expr.weight).wf.induction e step

/-- What holds of an expression if it holds of all that are written in its course holds of every
expression. -/
theorem writing_induction {P : Expr → Prop}
    (steps : ∀ e : Expr, e.isGroup = false →
      (∀ s ∈ e.steps, ∀ a, s.arg? = some a → ∀ c, a.expr? = some c → P c) → P e)
    (and : ∀ es, (∀ c ∈ es, P c) → P (.and es))
    (or : ∀ es, (∀ c ∈ es, P c) → P (.or es))
    (not : ∀ es, (∀ c ∈ es, P c) → (∀ c ∈ es, ∀ n, c.negation? = some n → P n) → P (.not es))
    (e : Expr) : P e := by
  induction e using weight_induction with
  | step e smaller =>
    cases e with
    | and es =>
      refine and es fun c hc => smaller c ?_
      have := weight_le_of_mem hc
      simp only [weight]
      omega
    | or es =>
      refine or es fun c hc => smaller c ?_
      have := weight_le_of_mem hc
      simp only [weight]
      omega
    | not es =>
      refine not es (fun c hc => smaller c ?_) fun c hc n hn => smaller n ?_
      · have := weight_le_of_mem hc
        simp only [weight]
        omega
      · have := weight_le_of_mem hc
        have := weight_le_of_negation? hn
        simp only [weight]
        omega
    | _ => exact steps _ rfl fun s hs a ha c hc => smaller c (weight_lt_of_mem_steps hs ha hc)

section Membership

variable (left : Expr) (vs : List Value) (negated : Bool)

/-- Equality with a list is membership in it. -/
theorem comparisonSteps_list :
    comparisonSteps left (Operator.eq.negatedIf negated) (.list vs) =
      membershipSteps left [.list vs] negated := by
  cases negated <;> cases vs <;> rfl

theorem comparisonSteps_isIn (a : Arg) :
    comparisonSteps left (Operator.isIn.negatedIf negated) a = membershipSteps left [a] negated := by
  cases negated <;> rfl

end Membership

/-- The steps of a comparison with a scalar that is written with the spelling of its operator. -/
theorem comparisonSteps_of_ne_null {op : Operator} (hin : op ≠ .isIn) (hnotIn : op ≠ .notIn)
    {v : Value} (hv : v ≠ .null) (left : Expr) :
    comparisonSteps left op (.value v) =
      [Step.operand left, Step.say (" " ++ op.spelling ++ " "), .arg .operand (.value v)] := by
  cases op with
  | isIn => exact absurd rfl hin
  | notIn => exact absurd rfl hnotIn
  | eq => cases v <;> first | rfl | exact absurd rfl hv
  | ne => cases v <;> first | rfl | exact absurd rfl hv
  | _ => rfl

end Expr

end SqlClause
