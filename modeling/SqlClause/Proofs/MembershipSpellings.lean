import Mathlib
import SqlClause.Proofs.PredicateForms
import SqlClause.Proofs.SignedWriting

/-! # Spellings of membership

Membership in a list can be asked for by equality, by the operator for it, by the list as the only
value, and by its elements as values. All of them are written in one way, which has a form for no
values and one for several. -/

namespace SqlClause

/-- What is written after an operand for membership in a list. Membership in no value at all is
false. -/
def Fragment.addAmong (f : Fragment) (vs : List Value) (negated : Bool) : Fragment :=
  if vs.isEmpty then f.writeString (if negated then " IS NOT NULL" else " IN (NULL)")
  else (f.writeString (if negated then " NOT IN " else " IN ")).bindBracketed vs

inductive MembershipSpelling where
  | equality
  | operator
  | list
  | elements

namespace MembershipSpelling

def phrase (left : Expr) (vs : List Value) (negated : Bool) : MembershipSpelling → Expr
  | equality => .comparison (Operator.eq.negatedIf negated) left (.list vs)
  | operator => .comparison (Operator.isIn.negatedIf negated) left (.list vs)
  | list => .membership left [.list vs] negated
  | elements => .membership left (vs.map .value) negated

/-- A single element is compared with instead. -/
def Covers (vs : List Value) : MembershipSpelling → Prop
  | elements => vs.length ≠ 1
  | _ => True

end MembershipSpelling

/-- An argument that is no list and no null. -/
inductive Arg.IsSingle : Arg → Prop where
  | value {v : Value} (h : v ≠ .null) : IsSingle (.value v)
  | expr (e : Expr) : IsSingle (.expr e)
  | verbatim (e : Expr) : IsSingle (.verbatim e)

namespace Expr

open Step (say operand)

/-! ## The steps of each spelling -/

variable (left : Expr) (vs : List Value) (negated : Bool)

theorem comparisonSteps_of_isSingle {a : Arg} (h : a.IsSingle) :
    comparisonSteps left (Operator.eq.negatedIf negated) a = membershipSteps left [a] negated := by
  cases h with
  | @value v hv =>
    cases negated
    · exact comparisonSteps_of_ne_null (by decide) (by decide) hv left
    · exact comparisonSteps_of_ne_null (by decide) (by decide) hv left
  | expr e => cases negated <;> rfl
  | verbatim e => cases negated <;> rfl

theorem foldl_write_membershipSteps_list (f : Fragment) :
    (membershipSteps left [.list vs] negated).foldl Step.write f =
      (Step.write f (operand left)).addAmong vs negated := by
  cases vs with
  | nil => rfl
  | cons v vs =>
    simp only [membershipSteps, List.foldl_cons, List.foldl_nil, Step.write, Arg.write, say]
    rfl

/-- The bracket before several elements is written with the word, and not with the list. -/
theorem foldl_write_membershipSteps_elements (h : vs.length ≠ 1) (f : Fragment) :
    (membershipSteps left (vs.map .value) negated).foldl Step.write f =
      (Step.write f (operand left)).addAmong vs negated := by
  match vs with
  | [] => rfl
  | [v] => exact absurd rfl h
  | v :: w :: vs =>
    have opening (g : Fragment) :
        Step.write g (say (if negated then " NOT IN (" else " IN (")) =
          (g.writeString (if negated then " NOT IN " else " IN ")).write ['('] := by
      rw [Fragment.writeString, Fragment.write_write]
      cases negated <;> rfl
    have steps : membershipSteps left ((v :: w :: vs).map .value) negated =
        operand left :: say (if negated then " NOT IN (" else " IN (") ::
          (commaSteps ((v :: w :: vs).map .value) ++ [say ")"]) := rfl
    rw [steps, List.foldl_cons, List.foldl_cons, List.foldl_append, opening, foldl_write_commaSteps]
    rfl

end Expr

namespace MembershipSpelling

variable {left : Expr} {vs : List Value} {negated : Bool}

theorem write_phrase {s : MembershipSpelling} (h : s.Covers vs) (f : Fragment) :
    (s.phrase left vs negated).write f =
      ⟨(Step.write f (Step.operand left)).addAmong vs negated, false⟩ := by
  cases s with
  | equality =>
    rw [phrase, Expr.write_of_isGroup_eq_false rfl, Expr.steps, Expr.comparisonSteps_list,
      Expr.foldl_write_membershipSteps_list]
    rfl
  | operator =>
    rw [phrase, Expr.write_of_isGroup_eq_false rfl, Expr.steps, Expr.comparisonSteps_isIn,
      Expr.foldl_write_membershipSteps_list]
    rfl
  | list =>
    rw [phrase, Expr.write_of_isGroup_eq_false rfl, Expr.steps,
      Expr.foldl_write_membershipSteps_list]
    rfl
  | elements =>
    rw [phrase, Expr.write_of_isGroup_eq_false rfl, Expr.steps,
      Expr.foldl_write_membershipSteps_elements left vs negated h]
    rfl

theorem negation?_phrase (s : MembershipSpelling) :
    (s.phrase left vs negated).negation? = some (s.phrase left vs !negated) := by
  cases s <;> cases negated <;> rfl

end MembershipSpelling

/-- Equality with a list, the operator for membership in it, and membership in it as the only value are
written alike, and so is membership in its elements unless there is just one. Membership in one value
that is no list and no null, or in an expression, is written as equality with it. The negation of each
is the same spelling of the opposite. -/
theorem membership_spellings_agree (left : Expr) (negated : Bool) :
    (∀ (vs : List Value) (s t : MembershipSpelling), s.Covers vs → t.Covers vs →
        ∀ f, (s.phrase left vs negated).write f = (t.phrase left vs negated).write f) ∧
      (∀ a : Arg, a.IsSingle → ∀ f, (Expr.membership left [a] negated).write f =
        (Expr.comparison (Operator.eq.negatedIf negated) left a).write f) ∧
      (∀ (vs : List Value) (s : MembershipSpelling),
        (s.phrase left vs negated).negation? = some (s.phrase left vs !negated)) ∧
      ∀ a : Arg,
        (Expr.membership left [a] negated).negation? = some (.membership left [a] !negated) ∧
        (Expr.comparison (Operator.eq.negatedIf negated) left a).negation? =
          some (.comparison (Operator.eq.negatedIf !negated) left a) := by
  refine ⟨fun vs s t hs ht f => ?_, fun a ha f => ?_, fun vs s => s.negation?_phrase,
    fun a => ⟨rfl, ?_⟩⟩
  · rw [MembershipSpelling.write_phrase hs, MembershipSpelling.write_phrase ht]
  · have steps : (Expr.comparison (Operator.eq.negatedIf negated) left a).steps =
        (Expr.membership left [a] negated).steps := Expr.comparisonSteps_of_isSingle left negated ha
    rw [Expr.write_of_isGroup_eq_false rfl, Expr.write_of_isGroup_eq_false rfl, steps]
    rfl
  · cases negated <;> rfl

/-- A sum that is not one of three values, of which one is null, and that is not the result of a
template. -/
theorem membership_spellings_agree_three_values :
    let left : Expr := .template "a + ?" [.value (.int 1)] false
    let vs : List Value := [.int 1, .null, .text "x"]
    let other : Arg := .expr (.template "b - ?" [.value (.int 2)] false)
    MembershipSpelling.elements.Covers vs ∧ MembershipSpelling.equality.Covers vs ∧
      other.IsSingle ∧
      ∀ f, (Expr.membership left (vs.map .value) true).write f =
          (Expr.comparison .ne left (.list vs)).write f ∧
        (Expr.membership left [other] true).write f = (Expr.comparison .ne left other).write f := by
  intro left vs other
  have elements : MembershipSpelling.elements.Covers vs := by
    show 3 ≠ 1
    decide
  have equality : MembershipSpelling.equality.Covers vs := trivial
  have single : other.IsSingle := .expr _
  obtain ⟨lists, alone, -⟩ := membership_spellings_agree left true
  exact ⟨elements, equality, single,
    fun f => ⟨lists vs .elements .equality elements equality f, alone other single f⟩⟩

end SqlClause
