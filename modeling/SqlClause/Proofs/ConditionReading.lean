import Mathlib.Order.Lattice
import SqlClause.Proofs.VoidExpressions

/-! # Conditions as boolean functions

A condition is read over columns that range over an ordered domain and are never null. Parts that
write nothing are left out; a condition without any other part has no truth value. -/

namespace SqlClause

/-- What the parts of conditions stand for. -/
structure Reading (D : Type) where
  /-- The value of an expression that is compared, such as a column. -/
  value : Expr → D
  scalar : Value → D
  /-- A list that stands for one value among several. -/
  row : List Value → D
  like : D → D → Bool
  /-- The truth of a template, or of another expression that has no conditions as parts. -/
  truth : Expr → Bool

/-- A truth value for all of some parts, if there is a part. -/
def joined (join : List Bool → Bool) (verdicts : List Bool) : Option Bool :=
  if verdicts.isEmpty then none else some (join verdicts)

theorem joined_eq_none_iff {join : List Bool → Bool} {bs : List Bool} :
    joined join bs = none ↔ bs = [] := by
  unfold joined
  split <;> simp_all

theorem joined_of_ne_nil {join : List Bool → Bool} {bs : List Bool} (h : bs ≠ []) :
    joined join bs = some (join bs) := by
  simp [joined, h]

theorem joined_eq_some_iff {join : List Bool → Bool} {bs : List Bool} {b : Bool} :
    joined join bs = some b ↔ bs ≠ [] ∧ join bs = b := by
  unfold joined
  split <;> simp_all

namespace Reading

variable {D : Type} [LinearOrder D]

def arg (r : Reading D) : Arg → D
  | .value v => r.scalar v
  | .list vs => r.row vs
  | .expr e | .verbatim e => r.value e

/-- A lone list is the set itself. Nothing is among no values. -/
def isAmong (r : Reading D) (x : D) : List Arg → Bool
  | [.list vs] => vs.any fun v => x = r.scalar v
  | args => args.any fun a => x = r.arg a

/-- Equality with a null scalar asks for a null, and no column is null. -/
def compares (r : Reading D) (x : D) : Operator → Arg → Bool
  | .eq, a => !a.isNull && r.isAmong x [a]
  | .ne, a => a.isNull || !r.isAmong x [a]
  | .isIn, a => r.isAmong x [a]
  | .notIn, a => !r.isAmong x [a]
  | .gt, a => r.arg a < x
  | .ge, a => r.arg a ≤ x
  | .lt, a => x < r.arg a
  | .le, a => x ≤ r.arg a
  | .like, a => r.like x (r.arg a)
  | .notLike, a => !r.like x (r.arg a)

mutual

/-- The truth of a condition. A negation holds if none of its children does. -/
def holds? (r : Reading D) (d : Dialect) : Expr → Option Bool
  | .comparison op left right => some (r.compares (r.value left) op right)
  | .membership left values negated => some (r.isAmong (r.value left) values != negated)
  | .between left low high negated =>
    some (decide (r.arg low ≤ r.value left ∧ r.value left ≤ r.arg high) != negated)
  | .and children => joined (·.all id) (r.verdicts d children)
  | .or children => joined (·.any id) (r.verdicts d children)
  | .not children => joined (·.all (!·)) (r.verdicts d children)
  | e => if (e.fragment d).isVoid then none else some (r.truth e)

/-- The truth values of the conditions that write something. -/
def verdicts (r : Reading D) (d : Dialect) : List Expr → List Bool
  | [] => []
  | e :: es => (r.holds? d e).toList ++ r.verdicts d es

end

variable (r : Reading D) (d : Dialect)

theorem verdicts_eq_filterMap (es : List Expr) : r.verdicts d es = es.filterMap (r.holds? d) := by
  induction es with
  | nil => rfl
  | cons e es ih =>
    rw [verdicts, ih, List.filterMap_cons]
    cases r.holds? d e <;> rfl

theorem mem_verdicts_iff {es : List Expr} {b : Bool} :
    b ∈ r.verdicts d es ↔ ∃ e ∈ es, r.holds? d e = some b := by
  rw [verdicts_eq_filterMap, List.mem_filterMap]

mutual

/-- A condition has no truth value if and only if it writes nothing. -/
theorem holds?_eq_none_iff : ∀ {e : Expr}, r.holds? d e = none ↔ (e.fragment d).isVoid = true
  | .comparison op left right => by simp [holds?, Expr.isVoid_fragment_comparison]
  | .membership left values negated => by simp [holds?, Expr.isVoid_fragment_membership]
  | .between left low high negated => by simp [holds?, Expr.isVoid_fragment_between]
  | .and es => by
    rw [holds?, joined_eq_none_iff, verdicts_eq_nil_iff es, Expr.isVoid_fragment_and]
  | .or es => by
    rw [holds?, joined_eq_none_iff, verdicts_eq_nil_iff es, Expr.isVoid_fragment_or]
  | .not es => by
    rw [holds?, joined_eq_none_iff, verdicts_eq_nil_iff es, Expr.isVoid_fragment_not]
  | .empty | .column _ | .template _ _ _ | .caseWhen _ _ _ | .aliased _ _ => by simp [holds?]

theorem verdicts_eq_nil_iff : ∀ es : List Expr,
    r.verdicts d es = [] ↔ (es.all fun e => (e.fragment d).isVoid) = true
  | [] => by simp [verdicts]
  | e :: es => by
    rw [verdicts, List.append_eq_nil_iff, Option.toList_eq_nil_iff, holds?_eq_none_iff (e := e),
      verdicts_eq_nil_iff es, List.all_cons, Bool.and_eq_true]

end

/-- Each operator holds exactly where its negated one does not. -/
theorem compares_negated (x : D) (op : Operator) (a : Arg) :
    r.compares x op.negated a = !r.compares x op a := by
  cases op with
  | eq => simp [Operator.negated, compares]
  | ne => simp [Operator.negated, compares]
  | isIn => rfl
  | notIn => simp [Operator.negated, compares]
  | like => rfl
  | notLike => simp [Operator.negated, compares]
  | gt => simp [Operator.negated, compares, ← not_lt]
  | ge => simp [Operator.negated, compares, ← not_lt]
  | lt => simp [Operator.negated, compares, ← not_lt]
  | le => simp [Operator.negated, compares, ← not_lt]

end Reading

end SqlClause
