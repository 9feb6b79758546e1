import SqlClause.Proofs.WritingInduction

/-! # Replaced scalars

An expression with other scalars takes the same steps, with the scalars in their arguments replaced,
as long as the replacement neither makes nor loses a null. -/

namespace SqlClause

mutual

/-- The argument with every scalar in it replaced. -/
def Arg.mapValues (φ : Value → Value) : Arg → Arg
  | .value v => .value (φ v)
  | .list vs => .list (vs.map φ)
  | .expr e => .expr (e.mapValues φ)
  | .verbatim e => .verbatim (e.mapValues φ)

def Arg.mapValuesAll (φ : Value → Value) : List Arg → List Arg
  | [] => []
  | a :: args => a.mapValues φ :: Arg.mapValuesAll φ args

def Arg.mapValuesOption (φ : Value → Value) : Option Arg → Option Arg
  | none => none
  | some a => some (a.mapValues φ)

def Arg.mapValuesBranches (φ : Value → Value) : List (Arg × Arg) → List (Arg × Arg)
  | [] => []
  | (condition, result) :: branches =>
    (condition.mapValues φ, result.mapValues φ) :: Arg.mapValuesBranches φ branches

def Expr.mapValues (φ : Value → Value) : Expr → Expr
  | .empty => .empty
  | .column c => .column c
  | .template text args flat => .template text (Arg.mapValuesAll φ args) flat
  | .comparison op left right => .comparison op (left.mapValues φ) (right.mapValues φ)
  | .membership left values negated =>
    .membership (left.mapValues φ) (Arg.mapValuesAll φ values) negated
  | .between left low high negated =>
    .between (left.mapValues φ) (low.mapValues φ) (high.mapValues φ) negated
  | .and children => .and (Expr.mapValuesAll φ children)
  | .or children => .or (Expr.mapValuesAll φ children)
  | .not children => .not (Expr.mapValuesAll φ children)
  | .caseWhen subject branches otherwise =>
    .caseWhen (Arg.mapValuesOption φ subject) (Arg.mapValuesBranches φ branches)
      (Arg.mapValuesOption φ otherwise)
  | .aliased e name => .aliased (e.mapValues φ) name

def Expr.mapValuesAll (φ : Value → Value) : List Expr → List Expr
  | [] => []
  | e :: es => e.mapValues φ :: Expr.mapValuesAll φ es

end

section Steps

variable (φ : Value → Value)

def Step.mapValues : Step → Step
  | .arg mode a => .arg mode (a.mapValues φ)
  | s => s

theorem Arg.mapValuesAll_eq_map (args : List Arg) :
    Arg.mapValuesAll φ args = args.map (Arg.mapValues φ) := by
  induction args with
  | nil => rfl
  | cons a args ih => rw [Arg.mapValuesAll, ih, List.map_cons]

theorem Expr.mapValuesAll_eq_map (es : List Expr) :
    Expr.mapValuesAll φ es = es.map (Expr.mapValues φ) := by
  induction es with
  | nil => rfl
  | cons e es ih => rw [Expr.mapValuesAll, ih, List.map_cons]

namespace Expr

open Step (say operand)

@[simp] theorem isCase_mapValues (e : Expr) : (e.mapValues φ).isCase = e.isCase := by
  cases e <;> rfl

@[simp] theorem isGroup_mapValues (e : Expr) : (e.mapValues φ).isGroup = e.isGroup := by
  cases e <;> rfl

@[simp] theorem isLoose_mapValues (e : Expr) : (e.mapValues φ).isLoose = e.isLoose := by
  cases e <;> rfl

theorem passed?_mapValues (e : Expr) :
    passed? (e.mapValues φ) = (passed? e).map (List.map (Arg.mapValues φ)) := by
  cases e with
  | template text args flat =>
    match args with
    | [] => rfl
    | [a] =>
      simp only [mapValues, Arg.mapValuesAll, passed?]
      split <;> rfl
    | a :: b :: args => rfl
  | _ => rfl

theorem effective_map_mapValues (args : List Arg) :
    effective (args.map (Arg.mapValues φ)) = (effective args).map (Arg.mapValues φ) := by
  match args with
  | [] => rfl
  | [.value _] => rfl
  | [.list _] => rfl
  | [.expr e] =>
    simp only [List.map_cons, List.map_nil, Arg.mapValues, effective, passed?_mapValues]
    cases passed? e <;> rfl
  | [.verbatim e] =>
    simp only [List.map_cons, List.map_nil, Arg.mapValues, effective, passed?_mapValues]
    cases passed? e <;> rfl
  | a :: b :: args => cases a <;> rfl

theorem templateSteps_map_mapValues (flat opened : Bool) (cs : List Char) (args : List Arg) :
    templateSteps flat opened cs (args.map (Arg.mapValues φ)) =
      (templateSteps flat opened cs args).map (Step.mapValues φ) := by
  fun_induction templateSteps flat opened cs args with
  | case1 _ args => simp [templateSteps, Step.mapValues]
  | case2 opened cs a args ih => simp [templateSteps, Step.mapValues, ih]
  | case3 opened c cs a args h ih =>
    rw [List.map_cons] at ih
    simp [templateSteps, Step.mapValues, h, ih]
  | case4 opened cs h =>
    cases cs with
    | nil => exact absurd rfl h
    | cons c cs => rfl

theorem commaSteps_map_mapValues (args : List Arg) :
    commaSteps (args.map (Arg.mapValues φ)) = (commaSteps args).map (Step.mapValues φ) := by
  fun_induction commaSteps args with
  | case1 => rfl
  | case2 a => rfl
  | case3 a args h ih =>
    cases args with
    | nil => exact absurd rfl h
    | cons b args =>
      rw [List.map_cons, List.map_cons, commaSteps, ← List.map_cons, ih]
      · rfl
      · simp

theorem membershipSteps_mapValues (left : Expr) (values : List Arg) (negated : Bool) :
    membershipSteps (left.mapValues φ) (values.map (Arg.mapValues φ)) negated =
      (membershipSteps left values negated).map (Step.mapValues φ) := by
  match values with
  | [] => rfl
  | [.value _] => rfl
  | [.expr _] => rfl
  | [.verbatim _] => rfl
  | [.list []] => rfl
  | [.list (v :: vs)] => rfl
  | a :: b :: values =>
    have inner := commaSteps_map_mapValues φ (a :: b :: values)
    rw [List.map_cons, List.map_cons] at inner
    cases a <;>
      · rw [Arg.mapValues] at inner
        simp [membershipSteps, Arg.mapValues, Step.mapValues, operand, say, inner]

theorem branchSteps_mapValues (branches : List (Arg × Arg)) :
    branchSteps (Arg.mapValuesBranches φ branches) =
      (branchSteps branches).map (Step.mapValues φ) := by
  fun_induction branchSteps branches with
  | case1 => rfl
  | case2 condition result branches ih =>
    simp [Arg.mapValuesBranches, branchSteps, Step.mapValues, say, ih]

theorem optionalSteps_mapValues (lead : String) (a : Option Arg) :
    optionalSteps lead (Arg.mapValuesOption φ a) =
      (optionalSteps lead a).map (Step.mapValues φ) := by
  cases a <;> rfl

mutual

theorem negation?_mapValues : ∀ e : Expr,
    (e.mapValues φ).negation? = e.negation?.map (Expr.mapValues φ)
  | .and children | .or children => by
    simp only [mapValues, negation?, Option.map_some, negations_mapValuesAll children]
  | .empty | .column _ | .template _ _ _ | .comparison _ _ _ | .membership _ _ _
  | .between _ _ _ _ | .not _ | .caseWhen _ _ _ | .aliased _ _ => rfl

theorem negations_mapValuesAll : ∀ es : List Expr,
    negations (mapValuesAll φ es) = mapValuesAll φ (negations es)
  | [] => rfl
  | e :: es => by
    rw [mapValuesAll, negations, negations, mapValuesAll, negation?_mapValues e,
      negations_mapValuesAll es]
    cases e.negation? <;> rfl

end

end Expr

end Steps

section Nulls

variable {φ : Value → Value} (hφ : ∀ v, φ v = .null ↔ v = .null)

include hφ

namespace Expr

/-- Only equality looks at a scalar, and only at whether it is null. -/
theorem comparisonSteps_mapValues (left : Expr) (op : Operator) (right : Arg) :
    comparisonSteps (left.mapValues φ) op (right.mapValues φ) =
      (comparisonSteps left op right).map (Step.mapValues φ) := by
  by_cases hin : op = .isIn
  · subst hin
    exact membershipSteps_mapValues φ left [right] false
  by_cases hnotIn : op = .notIn
  · subst hnotIn
    exact membershipSteps_mapValues φ left [right] true
  cases right with
  | value v =>
    by_cases hv : v = .null
    · subst hv
      rw [Arg.mapValues, (hφ .null).mpr rfl]
      cases op <;> simp_all [comparisonSteps, Step.mapValues, Step.operand, Step.say, Arg.mapValues,
        (hφ .null).mpr rfl]
    · have hn : φ v ≠ .null := fun h => hv ((hφ v).mp h)
      rw [Arg.mapValues, comparisonSteps_of_ne_null hin hnotIn hn,
        comparisonSteps_of_ne_null hin hnotIn hv]
      rfl
  | list vs => cases vs <;> cases op <;> rfl
  | expr e => cases op <;> rfl
  | verbatim e => cases op <;> rfl

theorem steps_mapValues (e : Expr) : (e.mapValues φ).steps = e.steps.map (Step.mapValues φ) := by
  cases e with
  | template text args flat =>
    rw [mapValues, steps, steps, Arg.mapValuesAll_eq_map, effective_map_mapValues,
      templateSteps_map_mapValues]
  | comparison op left right => exact comparisonSteps_mapValues hφ left op right
  | membership left values negated =>
    rw [mapValues, steps, steps, Arg.mapValuesAll_eq_map, membershipSteps_mapValues]
  | caseWhen subject branches otherwise =>
    simp [mapValues, steps, branchSteps_mapValues, optionalSteps_mapValues, Step.mapValues, Step.say]
  | _ => rfl

end Expr

end Nulls

mutual

theorem Arg.mapValues_id : ∀ a : Arg, a.mapValues id = a
  | .value _ => rfl
  | .list vs => congrArg Arg.list vs.map_id
  | .expr e => congrArg Arg.expr e.mapValues_id
  | .verbatim e => congrArg Arg.verbatim e.mapValues_id

theorem Arg.mapValuesAll_id : ∀ args : List Arg, Arg.mapValuesAll id args = args
  | [] => rfl
  | a :: args => by rw [Arg.mapValuesAll, a.mapValues_id, Arg.mapValuesAll_id args]

theorem Arg.mapValuesOption_id : ∀ a : Option Arg, Arg.mapValuesOption id a = a
  | none => rfl
  | some a => congrArg some a.mapValues_id

theorem Arg.mapValuesBranches_id :
    ∀ branches : List (Arg × Arg), Arg.mapValuesBranches id branches = branches
  | [] => rfl
  | (condition, result) :: branches => by
    rw [Arg.mapValuesBranches, condition.mapValues_id, result.mapValues_id,
      Arg.mapValuesBranches_id branches]

@[simp] theorem Expr.mapValues_id : ∀ e : Expr, e.mapValues id = e
  | .empty | .column _ => rfl
  | .template text args flat => by rw [Expr.mapValues, Arg.mapValuesAll_id args]
  | .comparison op left right => by rw [Expr.mapValues, left.mapValues_id, right.mapValues_id]
  | .membership left values negated => by
    rw [Expr.mapValues, left.mapValues_id, Arg.mapValuesAll_id values]
  | .between left low high negated => by
    rw [Expr.mapValues, left.mapValues_id, low.mapValues_id, high.mapValues_id]
  | .and es | .or es | .not es => by rw [Expr.mapValues, Expr.mapValuesAll_id es]
  | .caseWhen subject branches otherwise => by
    rw [Expr.mapValues, Arg.mapValuesOption_id subject, Arg.mapValuesBranches_id branches,
      Arg.mapValuesOption_id otherwise]
  | .aliased e name => by rw [Expr.mapValues, e.mapValues_id]

theorem Expr.mapValuesAll_id : ∀ es : List Expr, Expr.mapValuesAll id es = es
  | [] => rfl
  | e :: es => by rw [Expr.mapValuesAll, e.mapValues_id, Expr.mapValuesAll_id es]

end

end SqlClause
