import SqlClause.Expr.Negation
import SqlClause.Expr.Step

/-! # Weights of expressions

The weight bounds the work of writing an expression. A negation counts its children three times over,
which leaves room for their negated forms. -/

namespace SqlClause

mutual

def Arg.weight : Arg → Nat
  | .value _ | .list _ => 0
  | .expr e | .verbatim e => e.weight + 1

def Arg.weights : List Arg → Nat
  | [] => 0
  | a :: args => a.weight + Arg.weights args

def Arg.optionWeight : Option Arg → Nat
  | none => 0
  | some a => a.weight

def Arg.branchWeights : List (Arg × Arg) → Nat
  | [] => 0
  | (condition, result) :: branches =>
    condition.weight + result.weight + Arg.branchWeights branches

def Expr.weight : Expr → Nat
  | .empty | .column _ => 1
  | .template _ args _ => 1 + Arg.weights args
  | .comparison _ left right => 2 + left.weight + right.weight
  | .membership left values _ => 2 + left.weight + Arg.weights values
  | .between left low high _ => 2 + left.weight + low.weight + high.weight
  | .and children | .or children => 1 + Expr.weights children + children.length
  | .not children => 1 + 3 * Expr.weights children
  | .caseWhen subject branches otherwise =>
    1 + Arg.optionWeight subject + Arg.branchWeights branches + Arg.optionWeight otherwise
  | .aliased e _ => 2 + e.weight

def Expr.weights : List Expr → Nat
  | [] => 0
  | e :: es => e.weight + Expr.weights es

end

def Step.weight : Step → Nat
  | .arg _ a => a.weight
  | _ => 0

def Step.weights : List Step → Nat
  | [] => 0
  | s :: steps => s.weight + weights steps

namespace Step

@[simp] theorem weights_nil : weights [] = 0 := rfl

@[simp] theorem weights_cons (s : Step) (steps : List Step) :
    weights (s :: steps) = s.weight + weights steps := rfl

@[simp] theorem weights_append (xs ys : List Step) :
    weights (xs ++ ys) = weights xs + weights ys := by
  induction xs with
  | nil => simp
  | cons s xs ih => simp [ih, Nat.add_assoc]

end Step

open Step (say operand)

namespace Expr

theorem one_le_weight (e : Expr) : 1 ≤ e.weight := by
  cases e <;> simp only [weight] <;> omega

theorem weights_map_surplus (args : List Arg) :
    Step.weights (args.map (.arg .surplus)) = Arg.weights args := by
  induction args with
  | nil => rfl
  | cons a args ih => simp [Arg.weights, Step.weight, ih]

theorem weights_templateSteps_le (flat opened : Bool) (cs : List Char) (args : List Arg) :
    Step.weights (templateSteps flat opened cs args) ≤ Arg.weights args := by
  fun_induction templateSteps flat opened cs args with
  | case1 _ args => exact Nat.le_of_eq (weights_map_surplus args)
  | case2 => simp_all [Arg.weights, Step.weight]
  | case3 => simp_all [Arg.weights, Step.weight]
  | case4 => simp [Arg.weights, Step.weight]

theorem weights_effective_le (args : List Arg) : Arg.weights (effective args) ≤ Arg.weights args := by
  have passed (e : Expr) (b : Arg) (h : b.weight = e.weight + 1) :
      Arg.weights ((passed? e).getD [b]) ≤ e.weight + 1 := by
    unfold passed?
    split
    · split
      · simp only [Option.getD_some, Arg.weights, weight]
        omega
      · simp [Arg.weights, h]
    · simp [Arg.weights, h]
  unfold effective
  split
  · exact passed _ _ rfl
  · exact passed _ _ rfl
  · exact Nat.le_refl _

theorem weights_commaSteps (args : List Arg) : Step.weights (commaSteps args) = Arg.weights args := by
  fun_induction commaSteps args with
  | case1 => rfl
  | case2 a => simp [Arg.weights, Step.weight]
  | case3 a args _ ih => simp [Arg.weights, Step.weight, say, ih]

theorem weights_membershipSteps_le (left : Expr) (values : List Arg) (negated : Bool) :
    Step.weights (membershipSteps left values negated) ≤ left.weight + 1 + Arg.weights values := by
  unfold membershipSteps
  split <;> simp [operand, say, Step.weight, Arg.weight, Arg.weights, weights_commaSteps]

theorem weights_comparisonSteps_le (left : Expr) (op : Operator) (right : Arg) :
    Step.weights (comparisonSteps left op right) ≤ left.weight + 1 + right.weight := by
  have member (n : Bool) := weights_membershipSteps_le left [right] n
  simp only [Arg.weights, Nat.add_zero] at member
  unfold comparisonSteps
  split
  case h_1 => exact member false
  case h_2 => exact member true
  all_goals simp [operand, say, Step.weight, Arg.weight]

theorem weights_branchSteps (branches : List (Arg × Arg)) :
    Step.weights (branchSteps branches) = Arg.branchWeights branches := by
  fun_induction branchSteps branches with
  | case1 => rfl
  | case2 condition result branches ih =>
    simp [Arg.branchWeights, Step.weight, say, ih, Nat.add_assoc]

theorem weights_optionalSteps (lead : String) (a : Option Arg) :
    Step.weights (optionalSteps lead a) = Arg.optionWeight a := by
  cases a <;> simp [optionalSteps, Arg.optionWeight, Step.weight, say]

/-- Writing an expression step by step is less work than the expression weighs. -/
theorem weights_steps_lt (e : Expr) : Step.weights e.steps < e.weight := by
  cases e with
  | template sql args flat =>
    have := weights_templateSteps_le flat false sql.toList (effective args)
    have := weights_effective_le args
    simp only [steps, weight]
    omega
  | comparison op left right =>
    have := weights_comparisonSteps_le left op right
    simp only [steps, weight]
    omega
  | membership left values negated =>
    have := weights_membershipSteps_le left values negated
    simp only [steps, weight]
    omega
  | caseWhen subject branches otherwise =>
    simp [steps, weight, weights_branchSteps, weights_optionalSteps, say, Step.weight]
    omega
  | _ => simp [steps, weight, operand, say, Step.weight, Arg.weight] <;> omega

theorem length_negations (es : List Expr) : (negations es).length = es.length := by
  induction es with
  | nil => rfl
  | cons e es ih => simp [negations, ih]

theorem length_le_weights (es : List Expr) : es.length ≤ weights es := by
  induction es with
  | nil => simp [weights]
  | cons e es ih =>
    have := one_le_weight e
    simp only [List.length_cons, weights]
    omega

mutual

/-- A negated form weighs at most three times as much. -/
theorem weight_le_of_negation? : ∀ {e n : Expr}, negation? e = some n → n.weight ≤ 3 * e.weight
  | .and children, n, h | .or children, n, h => by
    have := weights_negations_le children
    have := length_negations children
    simp only [negation?, Option.some.injEq] at h
    subst h
    simp only [weight]
    omega
  | .not children, n, h => by
    have := length_le_weights children
    simp only [negation?, Option.some.injEq] at h
    subst h
    simp only [weight]
    omega
  | .comparison op left right, n, h => by
    simp only [negation?, Option.some.injEq] at h
    subst h
    simp only [weight]
    omega
  | .membership left values negated, n, h => by
    simp only [negation?, Option.some.injEq] at h
    subst h
    simp only [weight]
    omega
  | .between left low high negated, n, h => by
    simp only [negation?, Option.some.injEq] at h
    subst h
    simp only [weight]
    omega
  | .empty, n, h | .column c, n, h | .template sql args flat, n, h
  | .caseWhen subject branches otherwise, n, h | .aliased e name, n, h => by
    simp [negation?] at h

theorem weights_negations_le : ∀ es : List Expr, weights (negations es) ≤ 3 * weights es + es.length
  | [] => by simp [negations, weights]
  | e :: es => by
    have := weights_negations_le es
    simp only [negations, weights, List.length_cons]
    cases h : negation? e with
    | none =>
      simp only [Option.getD_none, weight, weights]
      omega
    | some n =>
      have := weight_le_of_negation? h
      simp only [Option.getD_some]
      omega

end

end Expr

end SqlClause
