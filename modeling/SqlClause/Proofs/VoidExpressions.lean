import SqlClause.Proofs.WritingLocality

/-! # Expressions that write nothing

A predicate always writes a text. A group is void if all its children are, and a negation is void if
what it negates is. -/

namespace SqlClause

theorem Step.isWordless_write (s : Step) (f : Fragment) :
    (s.write f).isWordless = (f.isWordless && (s.write (.blank f.dialect)).isWordless) := by
  have apart : s.write f = f.append (s.write (.blank f.dialect)) :=
    Step.foldl_write_eq_append [s] f
  rw [apart, Fragment.isWordless_append]

theorem Step.isWordless_foldl_write (steps : List Step) (f : Fragment) :
    (steps.foldl Step.write f).isWordless =
      (f.isWordless && steps.all fun s => (s.write (.blank f.dialect)).isWordless) := by
  induction steps generalizing f with
  | nil => simp
  | cons s steps ih =>
    have dialect : (s.write f).dialect = f.dialect :=
      s.dialect_write (fun a _ e _ => e.dialect_write) f
    rw [List.foldl_cons, ih, dialect, Step.isWordless_write, List.all_cons, Bool.and_assoc]

theorem Step.isWordless_text (cs : List Char) (d : Dialect) :
    ((Step.text cs).write (.blank d)).isWordless = cs.isEmpty := by
  rw [Step.write, Fragment.isWordless_write, Fragment.isWordless_blank, Bool.true_and]

namespace Fragment

theorem shown_eq_nil_iff {ps : List Operand} :
    shown ps = [] ↔ ∀ p ∈ ps, p.fragment.isVoid = true := by
  simp [shown, List.filter_eq_nil_iff]

theorem isVoid_addGroup (f : Fragment) (separator : List Char) (ps : List Operand) :
    (f.addGroup separator ps).fragment.isVoid = (f.isVoid && ps.all (·.fragment.isVoid)) := by
  match h : shown ps with
  | [] =>
    have all : ps.all (·.fragment.isVoid) = true := List.all_eq_true.mpr (shown_eq_nil_iff.mp h)
    rw [addGroup_of_shown_nil h, all, Bool.and_true]
  | p :: qs =>
    have mem : p ∈ shown ps := by rw [h]; exact List.mem_cons_self
    obtain ⟨hp, full⟩ := List.mem_filter.mp mem
    have some : ps.all (·.fragment.isVoid) = false := List.all_eq_false.mpr ⟨p, hp, by simpa using full⟩
    rw [some, Bool.and_false]
    cases qs with
    | nil =>
      rw [addGroup_of_shown_single h, isVoid_append]
      simp_all
    | cons q qs => simp [addGroup_of_shown_many h]

end Fragment

namespace Expr

open Step (say operand)

variable {d : Dialect}

theorem isWordless_fragment_of_text_mem {e : Expr} (h : e.isGroup = false) {cs : List Char}
    (hcs : cs ≠ []) (hmem : Step.text cs ∈ e.steps) : (e.fragment d).isWordless = false := by
  have worded : (Step.write (.blank d) (.text cs)).isWordless = false := by
    rw [Step.isWordless_text, List.isEmpty_eq_false_iff.mpr hcs]
  rw [fragment, write_of_isGroup_eq_false h, Step.isWordless_foldl_write, Bool.and_eq_false_iff]
  exact .inr (List.all_eq_false.mpr ⟨_, hmem, Bool.eq_false_iff.mp worded⟩)

theorem exists_text_mem_membershipSteps (left : Expr) (values : List Arg) (negated : Bool) :
    ∃ cs, cs ≠ [] ∧ Step.text cs ∈ membershipSteps left values negated := by
  unfold membershipSteps
  split
  all_goals exact ⟨_, by cases negated <;> simp, List.mem_cons_of_mem _ List.mem_cons_self⟩

theorem exists_text_mem_comparisonSteps (left : Expr) (op : Operator) (right : Arg) :
    ∃ cs, cs ≠ [] ∧ Step.text cs ∈ comparisonSteps left op right := by
  have second (s : String) (hs : s.toList ≠ []) (rest : List Step) :
      ∃ cs, cs ≠ [] ∧ Step.text cs ∈ operand left :: say s :: rest :=
    ⟨s.toList, hs, List.mem_cons_of_mem _ List.mem_cons_self⟩
  unfold comparisonSteps
  split
  case h_1 => exact exists_text_mem_membershipSteps left [_] false
  case h_2 => exact exists_text_mem_membershipSteps left [_] true
  all_goals exact second _ (by simp) _

theorem isWordless_fragment_comparison (op : Operator) (left : Expr) (right : Arg) :
    ((comparison op left right).fragment d).isWordless = false := by
  obtain ⟨cs, hcs, hmem⟩ := exists_text_mem_comparisonSteps left op right
  exact isWordless_fragment_of_text_mem rfl hcs hmem

theorem isWordless_fragment_membership (left : Expr) (values : List Arg) (negated : Bool) :
    ((membership left values negated).fragment d).isWordless = false := by
  obtain ⟨cs, hcs, hmem⟩ := exists_text_mem_membershipSteps left values negated
  exact isWordless_fragment_of_text_mem rfl hcs hmem

theorem isWordless_fragment_between (left : Expr) (low high : Arg) (negated : Bool) :
    ((between left low high negated).fragment d).isWordless = false := by
  have mem : Step.text " AND ".toList ∈ (between left low high negated).steps := by
    simp [steps, say]
  exact isWordless_fragment_of_text_mem rfl (by simp) mem

theorem isVoid_fragment_comparison (op : Operator) (left : Expr) (right : Arg) :
    ((comparison op left right).fragment d).isVoid = false :=
  Fragment.isVoid_of_isWordless_eq_false (isWordless_fragment_comparison op left right)

theorem isVoid_fragment_membership (left : Expr) (values : List Arg) (negated : Bool) :
    ((membership left values negated).fragment d).isVoid = false :=
  Fragment.isVoid_of_isWordless_eq_false (isWordless_fragment_membership left values negated)

theorem isVoid_fragment_between (left : Expr) (low high : Arg) (negated : Bool) :
    ((between left low high negated).fragment d).isVoid = false :=
  Fragment.isVoid_of_isWordless_eq_false (isWordless_fragment_between left low high negated)

theorem isVoid_fragment_empty : (Expr.empty.fragment d).isVoid = true := by
  rw [fragment, write_of_isGroup_eq_false rfl]
  rfl

theorem isVoid_fragment_and (es : List Expr) :
    ((Expr.and es).fragment d).isVoid = es.all fun e => (e.fragment d).isVoid := by
  rw [fragment, write_and, Fragment.isVoid_addGroup, List.all_map]
  rfl

theorem isVoid_fragment_or (es : List Expr) :
    ((Expr.or es).fragment d).isVoid = es.all fun e => (e.fragment d).isVoid := by
  rw [fragment, write_or, Fragment.isVoid_addGroup, List.all_map]
  rfl

theorem isVoid_fragment_not_eq_refusal (es : List Expr) :
    ((Expr.not es).fragment d).isVoid = es.all fun e => (e.refusal d).fragment.isVoid := by
  rw [fragment, write_not, Fragment.isVoid_addGroup, List.all_map]
  rfl

theorem isVoid_addRefused (f g : Fragment) (whole : Bool) :
    (f.addRefused g whole).isVoid = (f.isVoid && g.isVoid) := by
  unfold Fragment.addRefused
  split
  · simp_all
  · split <;> simp_all [Fragment.writeString]

theorem isVoid_refusal {e : Expr}
    (h : ∀ n, e.negation? = some n → (n.fragment d).isVoid = (e.fragment d).isVoid) :
    (e.refusal d).fragment.isVoid = (e.fragment d).isVoid := by
  cases hn : e.negation? with
  | none => rw [refusal_of_none hn, isVoid_addRefused]; rfl
  | some n => rw [refusal_of_some hn]; exact h n hn

mutual

/-- A negation is void if and only if what it negates is. -/
theorem isVoid_of_negation? : ∀ {e n : Expr}, e.negation? = some n →
    (n.fragment d).isVoid = (e.fragment d).isVoid
  | .and es, n, h => by
    obtain rfl := Option.some.inj h
    rw [isVoid_fragment_or, isVoid_fragment_and, all_isVoid_negations es]
  | .or es, n, h => by
    obtain rfl := Option.some.inj h
    rw [isVoid_fragment_and, isVoid_fragment_or, all_isVoid_negations es]
  | .not es, n, h => by
    obtain rfl := Option.some.inj h
    rw [isVoid_fragment_and, isVoid_fragment_not_eq_refusal, all_isVoid_refusal es]
  | .comparison op left right, n, h => by
    obtain rfl := Option.some.inj h
    rw [isVoid_fragment_comparison, isVoid_fragment_comparison]
  | .membership left values negated, n, h => by
    obtain rfl := Option.some.inj h
    rw [isVoid_fragment_membership, isVoid_fragment_membership]
  | .between left low high negated, n, h => by
    obtain rfl := Option.some.inj h
    rw [isVoid_fragment_between, isVoid_fragment_between]
  | .empty, n, h | .column _, n, h | .template _ _ _, n, h | .caseWhen _ _ _, n, h
  | .aliased _ _, n, h => by
    simp [negation?] at h

theorem all_isVoid_negations : ∀ es : List Expr,
    ((negations es).all fun e => (e.fragment d).isVoid) = es.all fun e => (e.fragment d).isVoid
  | [] => rfl
  | e :: es => by
    rw [negations, List.all_cons, List.all_cons, all_isVoid_negations es]
    congr 1
    cases h : e.negation? with
    | some n => exact isVoid_of_negation? h
    | none =>
      rw [Option.getD_none, isVoid_fragment_not_eq_refusal, List.all_cons, List.all_nil,
        Bool.and_true]
      exact isVoid_refusal fun n hn => by rw [h] at hn; cases hn

theorem all_isVoid_refusal : ∀ es : List Expr,
    (es.all fun e => (e.refusal d).fragment.isVoid) = es.all fun e => (e.fragment d).isVoid
  | [] => rfl
  | e :: es => by
    rw [List.all_cons, List.all_cons, all_isVoid_refusal es,
      isVoid_refusal fun n hn => isVoid_of_negation? hn]

end

theorem isVoid_fragment_not (es : List Expr) :
    ((Expr.not es).fragment d).isVoid = es.all fun e => (e.fragment d).isVoid := by
  rw [isVoid_fragment_not_eq_refusal, all_isVoid_refusal]

end Expr

end SqlClause
