import Mathlib.Data.List.Basic
import SqlClause.Proofs.FragmentSplicing
import SqlClause.Proofs.WritingInduction

/-! # The parameters of a statement are the scalars of its expression in source order

Scratch fragments, brackets, dropped parts and rewritten negations neither lose a value nor bind it
twice nor change the order of two values. -/

namespace SqlClause

/-- For each question mark, whether the text before it, less its marks, ends with an opening
bracket. `opened` says so of the text that has been read. -/
def openings (opened : Bool) : List Char → List Bool
  | [] => []
  | c :: cs => if c = '?' then opened :: openings opened cs else openings (c = '(') cs

namespace Arg

@[simp] theorem weights_append (xs ys : List Arg) :
    weights (xs ++ ys) = weights xs + weights ys := by
  induction xs with
  | nil => simp [weights]
  | cons a xs ih => simp [weights, ih, Nat.add_assoc]

theorem weights_toList (a : Option Arg) : weights a.toList = optionWeight a := by
  cases a <;> simp [weights, optionWeight]

theorem weights_map_expr (es : List Expr) :
    weights (es.map .expr) = Expr.weights es + es.length := by
  induction es with
  | nil => rfl
  | cons e es ih =>
    simp only [List.map_cons, weights, weight, Expr.weights, List.length_cons, ih]
    omega

theorem weights_flatMap_branches (branches : List (Arg × Arg)) :
    weights (branches.flatMap fun b => [b.1, b.2]) = branchWeights branches := by
  induction branches with
  | nil => rfl
  | cons b branches ih =>
    obtain ⟨condition, result⟩ := b
    simp [weights, branchWeights, ih, Nat.add_assoc]

end Arg

namespace Expr

/-- The arguments of an expression in source order. Equality with a null scalar has none but its
operand; a lone argument of a template that only passes on its own is replaced by that. -/
def operands : Expr → List Arg
  | .empty | .column _ => []
  | .template _ args _ => effective args
  | .comparison op left right =>
    if (op = .eq ∨ op = .ne) ∧ right.isNull then [.expr left] else [.expr left, right]
  | .membership left values _ => .expr left :: values
  | .between left low high _ => [.expr left, low, high]
  | .and children | .or children | .not children => children.map .expr
  | .caseWhen subject branches otherwise =>
    subject.toList ++ branches.flatMap (fun b => [b.1, b.2]) ++ otherwise.toList
  | .aliased e _ => [.expr e]

/-- For each argument that a mark of a template takes, whether it is taken flat. -/
def marks : Expr → List Bool
  | .template text _ flat => (openings false text.toList).map (flat || ·)
  | _ => []

theorem weights_operands_lt (e : Expr) : Arg.weights e.operands < e.weight := by
  cases e with
  | template text args flat =>
    have := weights_effective_le args
    simp only [operands, weight]
    omega
  | comparison op left right =>
    simp only [operands, weight]
    split <;> simp only [Arg.weights, Arg.weight] <;> omega
  | and es => simp only [operands, weight, Arg.weights_map_expr]; omega
  | or es => simp only [operands, weight, Arg.weights_map_expr]; omega
  | not es =>
    have := length_le_weights es
    simp only [operands, weight, Arg.weights_map_expr]
    omega
  | caseWhen subject branches otherwise =>
    simp only [operands, weight, Arg.weights_append, Arg.weights_toList,
      Arg.weights_flatMap_branches]
    omega
  | _ =>
    simp only [operands, weight, Arg.weights, Arg.weight]
    omega

end Expr

mutual

/-- The scalars of an argument from left to right. An empty list that is taken flat counts as a
null. -/
def Arg.scalars (flat : Bool) (a : Arg) : List Value :=
  match a with
  | .value v => [v]
  | .list vs => if flat ∧ vs = [] then [.null] else vs
  | .expr e | .verbatim e => e.scalars
termination_by (a.weight, 0)
decreasing_by all_goals simp only [Arg.weight, Prod.lex_def]; omega

/-- The scalars of arguments of which those that a mark says are taken flat. -/
def Arg.scalarsAll (flat : List Bool) (args : List Arg) : List Value :=
  match args with
  | [] => []
  | a :: args => a.scalars (flat.headD false) ++ Arg.scalarsAll flat.tail args
termination_by (Arg.weights args, args.length)
decreasing_by all_goals simp only [Arg.weights, List.length_cons, Prod.lex_def]; omega

def Expr.scalars (e : Expr) : List Value := Arg.scalarsAll e.marks e.operands
termination_by (e.weight, 0)
decreasing_by
  have := Expr.weights_operands_lt e
  simp only [Prod.lex_def]
  omega

end

namespace Arg

@[simp] theorem scalarsAll_nil (flat : List Bool) : scalarsAll flat [] = [] := by
  rw [scalarsAll]

theorem scalarsAll_cons (flat : List Bool) (a : Arg) (args : List Arg) :
    scalarsAll flat (a :: args) = a.scalars (flat.headD false) ++ scalarsAll flat.tail args := by
  rw [scalarsAll]

/-- Without marks the scalars of arguments are those of each argument in turn. -/
theorem scalarsAll_eq_flatMap (args : List Arg) : scalarsAll [] args = args.flatMap (scalars false) := by
  induction args with
  | nil => simp
  | cons a args ih => rw [scalarsAll_cons, List.flatMap_cons, List.tail_nil, ih]; rfl

theorem scalars_value (flat : Bool) (v : Value) : (Arg.value v).scalars flat = [v] := by
  rw [scalars]

theorem scalars_list (vs : List Value) : (Arg.list vs).scalars false = vs := by
  simp [scalars]

theorem scalars_expr (flat : Bool) (e : Expr) : (Arg.expr e).scalars flat = e.scalars := by
  rw [scalars]

theorem scalars_verbatim (flat : Bool) (e : Expr) :
    (Arg.verbatim e).scalars flat = e.scalars := by
  rw [scalars]

end Arg

namespace Expr

theorem scalars_of_marks_eq_nil {e : Expr} (h : e.marks = []) :
    e.scalars = e.operands.flatMap (Arg.scalars false) := by
  rw [scalars, h, Arg.scalarsAll_eq_flatMap]

theorem scalars_children (es : List Expr) :
    (es.map Arg.expr).flatMap (Arg.scalars false) = es.flatMap scalars := by
  simp only [List.flatMap_map, Arg.scalars_expr]

theorem scalars_and (es : List Expr) : (Expr.and es).scalars = es.flatMap scalars := by
  rw [scalars_of_marks_eq_nil rfl, operands, scalars_children]

theorem scalars_or (es : List Expr) : (Expr.or es).scalars = es.flatMap scalars := by
  rw [scalars_of_marks_eq_nil rfl, operands, scalars_children]

theorem scalars_not (es : List Expr) : (Expr.not es).scalars = es.flatMap scalars := by
  rw [scalars_of_marks_eq_nil rfl, operands, scalars_children]

mutual

/-- A negation has the scalars of what it negates, in the same order. -/
theorem scalars_of_negation? : ∀ {e n : Expr}, e.negation? = some n → n.scalars = e.scalars
  | .and es, n, h => by
    obtain rfl := Option.some.inj h
    rw [scalars_or, scalars_and, scalars_negations es]
  | .or es, n, h => by
    obtain rfl := Option.some.inj h
    rw [scalars_and, scalars_or, scalars_negations es]
  | .not es, n, h => by
    obtain rfl := Option.some.inj h
    rw [scalars_and, scalars_not]
  | .comparison op left right, n, h => by
    obtain rfl := Option.some.inj h
    rw [scalars_of_marks_eq_nil rfl, scalars_of_marks_eq_nil rfl]
    cases op <;> simp [operands, Operator.negated]
  | .membership left values negated, n, h => by
    obtain rfl := Option.some.inj h
    rw [scalars_of_marks_eq_nil rfl, scalars_of_marks_eq_nil rfl, operands, operands]
  | .between left low high negated, n, h => by
    obtain rfl := Option.some.inj h
    rw [scalars_of_marks_eq_nil rfl, scalars_of_marks_eq_nil rfl, operands, operands]
  | .empty, n, h | .column _, n, h | .template _ _ _, n, h | .caseWhen _ _ _, n, h
  | .aliased _ _, n, h => by
    simp [negation?] at h

theorem scalars_negations : ∀ es : List Expr, (negations es).flatMap scalars = es.flatMap scalars
  | [] => rfl
  | e :: es => by
    rw [negations, List.flatMap_cons, List.flatMap_cons, scalars_negations es]
    congr 1
    cases h : e.negation? with
    | none => simp [scalars_not]
    | some n => exact scalars_of_negation? h

end

end Expr

/-- The scalars that a step binds. -/
def Step.scalars : Step → List Value
  | .arg mode a => a.scalars (mode = .flat)
  | _ => []

namespace Expr

open Step (say operand)

theorem scalars_map_surplus (args : List Arg) :
    (args.map (Step.arg .surplus)).flatMap Step.scalars = Arg.scalarsAll [] args := by
  rw [Arg.scalarsAll_eq_flatMap, List.flatMap_map]
  rfl

theorem scalars_templateSteps (flat opened : Bool) (cs : List Char) (args : List Arg) :
    (templateSteps flat opened cs args).flatMap Step.scalars =
      Arg.scalarsAll ((openings opened cs).map (flat || ·)) args := by
  fun_induction templateSteps flat opened cs args with
  | case1 opened args => exact scalars_map_surplus args
  | case2 opened cs a args ih =>
    rw [List.flatMap_cons, ih, openings, if_pos rfl, List.map_cons, Arg.scalarsAll_cons]
    congr 1
    cases flat || opened <;> simp [Step.scalars]
  | case3 opened c cs a args h ih =>
    rw [List.flatMap_cons, ih, openings, if_neg h]
    rfl
  | case4 opened cs h => rw [Arg.scalarsAll_nil]; rfl

theorem scalars_commaSteps (args : List Arg) :
    (commaSteps args).flatMap Step.scalars = args.flatMap (Arg.scalars false) := by
  fun_induction commaSteps args with
  | case1 => rfl
  | case2 a => simp [Step.scalars]
  | case3 a args h ih => simp [Step.scalars, say, ih]

theorem scalars_membershipSteps (left : Expr) (values : List Arg) (negated : Bool) :
    (membershipSteps left values negated).flatMap Step.scalars =
      (Arg.expr left :: values).flatMap (Arg.scalars false) := by
  unfold membershipSteps
  split <;> simp [Step.scalars, operand, say, scalars_commaSteps, Arg.scalars_list]

theorem scalars_comparisonSteps (left : Expr) (op : Operator) (right : Arg) :
    (comparisonSteps left op right).flatMap Step.scalars =
      (Expr.comparison op left right).scalars := by
  rw [scalars_of_marks_eq_nil rfl]
  by_cases hin : op = .isIn
  · subst hin
    rw [operands, if_neg (by simp)]
    exact scalars_membershipSteps left [right] false
  by_cases hnotIn : op = .notIn
  · subst hnotIn
    rw [operands, if_neg (by simp)]
    exact scalars_membershipSteps left [right] true
  cases right with
  | value v =>
    by_cases hv : v = .null
    · subst hv
      cases op <;> simp_all [comparisonSteps, operands, Arg.isNull, Value.isNull, Step.scalars,
        operand, say]
    · have hn : (Arg.value v).isNull = false := by
        rw [Arg.isNull]
        exact Bool.eq_false_iff.mpr fun h => hv (Value.isNull_iff.mp h)
      rw [comparisonSteps_of_ne_null hin hnotIn hv, operands, hn]
      simp [Step.scalars, operand, say]
  | list vs =>
    cases vs <;> cases op <;> simp_all [comparisonSteps, operands, Arg.isNull, Step.scalars,
      operand, say, Arg.scalars_list]
  | _ => cases op <;> simp_all [comparisonSteps, operands, Arg.isNull, Step.scalars, operand, say]

theorem scalars_branchSteps (branches : List (Arg × Arg)) :
    (branchSteps branches).flatMap Step.scalars =
      (branches.flatMap fun b => [b.1, b.2]).flatMap (Arg.scalars false) := by
  fun_induction branchSteps branches with
  | case1 => rfl
  | case2 condition result branches ih => simp [Step.scalars, say, ih]

theorem scalars_optionalSteps (lead : String) (a : Option Arg) :
    (optionalSteps lead a).flatMap Step.scalars = a.toList.flatMap (Arg.scalars false) := by
  cases a <;> simp [optionalSteps, Step.scalars, say]

/-- The steps of an expression bind its scalars in source order. -/
theorem scalars_steps {e : Expr} (h : e.isGroup = false) :
    e.steps.flatMap Step.scalars = e.scalars := by
  cases e with
  | template text args flat => rw [steps, scalars_templateSteps, scalars]; rfl
  | comparison op left right => exact scalars_comparisonSteps left op right
  | membership left values negated =>
    rw [steps, scalars_membershipSteps, scalars_of_marks_eq_nil rfl, operands]
  | caseWhen subject branches otherwise =>
    rw [steps, scalars_of_marks_eq_nil rfl, operands]
    simp [Step.scalars, say, scalars_branchSteps, scalars_optionalSteps]
  | and es => cases h
  | or es => cases h
  | not es => cases h
  | _ =>
    rw [scalars_of_marks_eq_nil rfl]
    simp [steps, operands, Step.scalars, operand, say]

end Expr

/-- An argument binds its scalars if the expression in it does. -/
theorem Arg.params_write (a : Arg) (mode : Mode)
    (inner : ∀ e, a.expr? = some e → ∀ f : Fragment,
      (e.write f).fragment.params = f.params ++ e.scalars) (f : Fragment) :
    (a.write mode f).params = f.params ++ a.scalars (mode = .flat) := by
  cases a with
  | value v => cases mode <;> simp [Arg.write, Arg.scalars_value]
  | list vs =>
    cases mode with
    | flat => cases vs <;> simp [Arg.write, Fragment.bindFlat, Arg.scalars]
    | surplus => simp [Arg.write, Arg.scalars]
    | _ => cases vs <;> simp [Arg.write, Fragment.bindBracketed, Fragment.writeString, Arg.scalars]
  | expr e =>
    have here := inner e rfl f
    have alone := inner e rfl (.blank f.dialect)
    rw [Arg.scalars_expr]
    cases mode with
    | operand => simp only [Arg.write]; split <;> simp [here, alone]
    | surplus => simp [Arg.write, alone]
    | _ => simp [Arg.write, here]
  | verbatim e =>
    have here := inner e rfl f
    have alone := inner e rfl (.blank f.dialect)
    rw [Arg.scalars_verbatim]
    cases mode with
    | surplus => simp [Arg.write, alone]
    | _ => simp [Arg.write, here]

theorem Step.params_write (s : Step)
    (inner : ∀ a, s.arg? = some a → ∀ e, a.expr? = some e → ∀ f : Fragment,
      (e.write f).fragment.params = f.params ++ e.scalars) (f : Fragment) :
    (s.write f).params = f.params ++ s.scalars := by
  cases s with
  | arg mode a => exact Arg.params_write a mode (inner a rfl) f
  | _ => simp [Step.write, Step.scalars]

theorem Step.params_foldl_write (steps : List Step)
    (inner : ∀ s ∈ steps, ∀ a, s.arg? = some a → ∀ e, a.expr? = some e → ∀ f : Fragment,
      (e.write f).fragment.params = f.params ++ e.scalars) (f : Fragment) :
    (steps.foldl Step.write f).params = f.params ++ steps.flatMap Step.scalars := by
  induction steps generalizing f with
  | nil => simp
  | cons s steps ih =>
    rw [List.foldl_cons, ih (fun t ht => inner t (List.mem_cons_of_mem _ ht)),
      Step.params_write s (inner s List.mem_cons_self), List.flatMap_cons, List.append_assoc]

namespace Expr

theorem params_refusal {e : Expr} (d : Dialect)
    (here : ∀ f : Fragment, (e.write f).fragment.params = f.params ++ e.scalars)
    (negated : ∀ n, e.negation? = some n →
      ∀ f : Fragment, (n.write f).fragment.params = f.params ++ n.scalars) :
    (e.refusal d).fragment.params = e.scalars := by
  cases h : e.negation? with
  | some n =>
    rw [refusal_of_some h, negated n h, scalars_of_negation? h]
    rfl
  | none =>
    have alone : (e.fragment d).params = e.scalars := (here (.blank d)).trans rfl
    rw [refusal_of_none h, Fragment.addRefused]
    split
    · rename_i hv
      rw [← alone, (Fragment.isVoid_iff.mp hv).1]
      rfl
    · split <;> simp [Fragment.writeString, alone]

/-- Writing an expression binds its scalars after the values that are there. -/
theorem params_write (e : Expr) (f : Fragment) :
    (e.write f).fragment.params = f.params ++ e.scalars := by
  induction e using writing_induction generalizing f with
  | steps e h inner =>
    rw [write_of_isGroup_eq_false h, Step.params_foldl_write _ inner, scalars_steps h]
  | and es ih =>
    rw [write_and, Fragment.params_addGroup, scalars_and, List.flatMap_map]
    exact congrArg _ (List.flatMap_congr fun c hc => ih c hc (.blank f.dialect))
  | or es ih =>
    rw [write_or, Fragment.params_addGroup, scalars_or, List.flatMap_map]
    exact congrArg _ (List.flatMap_congr fun c hc => ih c hc (.blank f.dialect))
  | not es ih ihn =>
    rw [write_not, Fragment.params_addGroup, scalars_not, List.flatMap_map]
    exact congrArg _ (List.flatMap_congr fun c hc =>
      params_refusal f.dialect (ih c hc) (ihn c hc))

end Expr

mutual

/-- All scalars that stand in an argument, from left to right. -/
def Arg.leaves : Arg → List Value
  | .value v => [v]
  | .list vs => vs
  | .expr e | .verbatim e => e.leaves

def Arg.leavesAll : List Arg → List Value
  | [] => []
  | a :: args => a.leaves ++ Arg.leavesAll args

def Arg.leavesOption : Option Arg → List Value
  | none => []
  | some a => a.leaves

def Arg.leavesBranches : List (Arg × Arg) → List Value
  | [] => []
  | (condition, result) :: branches =>
    condition.leaves ++ result.leaves ++ Arg.leavesBranches branches

def Expr.leaves : Expr → List Value
  | .empty | .column _ => []
  | .template _ args _ => Arg.leavesAll args
  | .comparison _ left right => left.leaves ++ right.leaves
  | .membership left values _ => left.leaves ++ Arg.leavesAll values
  | .between left low high _ => left.leaves ++ low.leaves ++ high.leaves
  | .and children | .or children | .not children => Expr.leavesAll children
  | .caseWhen subject branches otherwise =>
    Arg.leavesOption subject ++ Arg.leavesBranches branches ++ Arg.leavesOption otherwise
  | .aliased e _ => e.leaves

def Expr.leavesAll : List Expr → List Value
  | [] => []
  | e :: es => e.leaves ++ Expr.leavesAll es

end

namespace Arg

theorem leavesAll_append (xs ys : List Arg) :
    leavesAll (xs ++ ys) = leavesAll xs ++ leavesAll ys := by
  induction xs with
  | nil => rfl
  | cons a xs ih => simp [leavesAll, ih]

theorem leavesAll_map_expr (es : List Expr) : leavesAll (es.map .expr) = Expr.leavesAll es := by
  induction es with
  | nil => rfl
  | cons e es ih => simp [leavesAll, leaves, Expr.leavesAll, ih]

theorem leavesAll_toList (a : Option Arg) : leavesAll a.toList = leavesOption a := by
  cases a <;> simp [leavesAll, leavesOption]

theorem leavesAll_flatMap_branches (branches : List (Arg × Arg)) :
    leavesAll (branches.flatMap fun b => [b.1, b.2]) = leavesBranches branches := by
  induction branches with
  | nil => rfl
  | cons b branches ih =>
    obtain ⟨condition, result⟩ := b
    simp [leavesAll, leavesBranches, ih]

end Arg

namespace Expr

/-- To pass on a lone argument keeps what stands in it. -/
theorem leavesAll_effective (args : List Arg) :
    Arg.leavesAll (effective args) = Arg.leavesAll args := by
  rcases effective_cases args with h | ⟨b, flat, hargs, h⟩
  · rw [h]
  · rw [h]
    rcases hargs with rfl | rfl <;> simp [Arg.leavesAll, Arg.leaves, leaves]

/-- Only a null can stand in an expression and not among its operands. -/
theorem filter_leavesAll_operands (e : Expr) :
    (Arg.leavesAll e.operands).filter (!·.isNull) = e.leaves.filter (!·.isNull) := by
  cases e with
  | template text args flat => rw [operands, leavesAll_effective, leaves]
  | comparison op left right =>
    rw [operands, leaves]
    split
    · rename_i h
      cases right with
      | value v => simp_all [Arg.leavesAll, Arg.leaves, Arg.isNull]
      | _ => simp [Arg.isNull] at h
    · simp [Arg.leavesAll, Arg.leaves]
  | and es => rw [operands, Arg.leavesAll_map_expr, leaves]
  | or es => rw [operands, Arg.leavesAll_map_expr, leaves]
  | not es => rw [operands, Arg.leavesAll_map_expr, leaves]
  | caseWhen subject branches otherwise =>
    rw [operands, Arg.leavesAll_append, Arg.leavesAll_append, Arg.leavesAll_toList,
      Arg.leavesAll_toList, Arg.leavesAll_flatMap_branches, leaves]
  | _ => simp [operands, leaves, Arg.leavesAll, Arg.leaves]

end Expr

mutual

theorem Arg.filter_scalars (flat : Bool) (a : Arg) :
    (a.scalars flat).filter (!·.isNull) = a.leaves.filter (!·.isNull) := by
  cases a with
  | value v => rw [Arg.scalars_value, Arg.leaves]
  | list vs =>
    rw [Arg.scalars, Arg.leaves]
    split
    · rename_i h
      rw [h.2]
      rfl
    · rfl
  | expr e => rw [Arg.scalars_expr, Arg.leaves, Expr.filter_scalars]
  | verbatim e => rw [Arg.scalars_verbatim, Arg.leaves, Expr.filter_scalars]
termination_by (a.weight, 0)
decreasing_by all_goals simp only [Arg.weight, Prod.lex_def]; omega

theorem Arg.filter_scalarsAll (flat : List Bool) (args : List Arg) :
    (Arg.scalarsAll flat args).filter (!·.isNull) = (Arg.leavesAll args).filter (!·.isNull) := by
  cases args with
  | nil => rw [Arg.scalarsAll_nil, Arg.leavesAll]
  | cons a args =>
    rw [Arg.scalarsAll_cons, Arg.leavesAll, List.filter_append, List.filter_append,
      Arg.filter_scalars, Arg.filter_scalarsAll]
termination_by (Arg.weights args, args.length)
decreasing_by all_goals simp only [Arg.weights, List.length_cons, Prod.lex_def]; omega

/-- All scalars but nulls are bound as they stand in the expression. -/
theorem Expr.filter_scalars (e : Expr) :
    e.scalars.filter (!·.isNull) = e.leaves.filter (!·.isNull) := by
  rw [Expr.scalars, Arg.filter_scalarsAll, Expr.filter_leavesAll_operands]
termination_by (e.weight, 0)
decreasing_by
  have := Expr.weights_operands_lt e
  simp only [Prod.lex_def]
  omega

end

/-- In every dialect the values of a statement are the scalars of its expression, each of them once
and in source order. Whatever negations are rewritten and arguments passed on, all that stand in the
expression and are not null are among them. -/
theorem params_statement_eq_scalars (e : Expr) (d : Dialect) :
    (e.statement d).params = e.scalars ∧
      (e.statement d).params.filter (!·.isNull) = e.leaves.filter (!·.isNull) := by
  have bound : (e.statement d).params = e.scalars := (Expr.params_write e (.blank d)).trans rfl
  rw [bound]
  exact ⟨rfl, e.filter_scalars⟩

end SqlClause
