import Mathlib
import SqlClause.Proofs.AbsentParts

/-! # Writing under a sign

A negation is written by turning the tree that it negates into another one, which may be larger. One
pass over the tree itself comes to the same: it carries a sign, which a negation of a single child
changes, and under the negative sign connectives and predicates turn into their opposites. What has no
opposite is refused by a word before it. -/

namespace SqlClause

/-- The operand at the end of a fragment. -/
def Fragment.spliced (f : Fragment) (p : Operand) : Operand := ⟨f.append p.fragment, p.loose⟩

section Signed

/-! ## One pass over the tree

It recurses into parts of the tree only. How an expression is refused that has no opposite is left
open: `refuse` makes the refusal from the expression and from what it writes. -/

variable (refuse : Expr → Fragment → Fragment)

mutual

def Arg.signed (mode : Mode) (a : Arg) (f : Fragment) : Fragment :=
  match a with
  | .value v => Arg.write mode (.value v) f
  | .list vs => Arg.write mode (.list vs) f
  | .expr e => f.embed (e.signed false f.dialect).fragment mode e.isCase
  | .verbatim e => f.embed (e.signed false f.dialect).fragment mode true
termination_by (a.weight, 0)
decreasing_by all_goals simp only [Arg.weight, Prod.lex_def]; omega

def Step.signedAll (steps : List Step) (f : Fragment) : Fragment :=
  match steps with
  | [] => f
  | .arg mode a :: rest => Step.signedAll rest (a.signed mode f)
  | s :: rest => Step.signedAll rest (s.write f)
termination_by (Step.weights steps, steps.length)
decreasing_by
  all_goals
    simp only [Step.weights_cons, Step.weight, List.length_cons, Prod.lex_def]
    omega

/-- The expression in a fragment of its own, as it is or negated, and whether it needs brackets among
other operands. -/
def Expr.signed (negated : Bool) (e : Expr) (d : Dialect) : Operand :=
  match e with
  | .and children =>
    (Fragment.blank d).addGroup (if negated then " OR " else " AND ").toList
      (Expr.signedAll negated children d)
  | .or children =>
    (Fragment.blank d).addGroup (if negated then " AND " else " OR ").toList
      (Expr.signedAll negated children d)
  | .not [] => ⟨.blank d, false⟩
  | .not [c] => c.signed (!negated) d
  -- several negated children are joined in the same way under both signs
  | .not children =>
    (Fragment.blank d).addGroup " AND ".toList (Expr.signedAll (!negated) children d)
  | .comparison op left right =>
    ⟨Step.signedAll (Expr.comparisonSteps left (op.negatedIf negated) right) (.blank d), false⟩
  | .membership left values n =>
    ⟨Step.signedAll (Expr.membershipSteps left values (n != negated)) (.blank d), false⟩
  | .between left low high n =>
    ⟨Step.signedAll (Expr.between left low high (n != negated)).steps (.blank d), false⟩
  | e =>
    let itself := Step.signedAll e.steps (.blank d)
    if negated then ⟨refuse e itself, false⟩ else ⟨itself, e.isLoose⟩
termination_by (e.weight, 0)
decreasing_by
  · simp only [Expr.weight, Prod.lex_def]; omega
  · simp only [Expr.weight, Prod.lex_def]; omega
  · simp only [Expr.weight, Expr.weights, Prod.lex_def]; omega
  · simp only [Expr.weight, Prod.lex_def]; omega
  · have := Expr.weights_comparisonSteps_le left (op.negatedIf negated) right
    simp only [Expr.weight, Prod.lex_def]; omega
  · have := Expr.weights_membershipSteps_le left values (n != negated)
    simp only [Expr.weight, Prod.lex_def]; omega
  · have := Expr.weights_steps_lt (Expr.between left low high (n != negated))
    simp only [Expr.weight, Prod.lex_def] at *; omega
  · have := Expr.weights_steps_lt e
    simp only [Prod.lex_def]; omega

def Expr.signedAll (negated : Bool) (es : List Expr) (d : Dialect) : List Operand :=
  match es with
  | [] => []
  | e :: es => e.signed negated d :: Expr.signedAll negated es d
termination_by (Expr.weights es, es.length)
decreasing_by all_goals simp only [Expr.weights, List.length_cons, Prod.lex_def]; omega

end

end Signed

def Step.signed (refuse : Expr → Fragment → Fragment) (f : Fragment) : Step → Fragment
  | .arg mode a => a.signed refuse mode f
  | s => s.write f

/-- The word for negations before what an expression writes, in brackets unless it needs none, and
nothing if that is void. -/
def Expr.refused (e : Expr) (g : Fragment) : Fragment :=
  (Fragment.blank g.dialect).addRefused g e.isCase

/-- The expression itself, or the one that is written for its negation. -/
def Expr.negatedIf (negated : Bool) (e : Expr) : Expr :=
  if negated then (negation? e).getD (.not [e]) else e

section Equations

variable {refuse : Expr → Fragment → Fragment}

theorem Step.signedAll_eq_foldl (steps : List Step) (f : Fragment) :
    Step.signedAll refuse steps f = steps.foldl (Step.signed refuse) f := by
  induction steps generalizing f with
  | nil => simp [Step.signedAll]
  | cons s steps ih => cases s <;> simp [Step.signedAll, Step.signed, ih]

namespace Expr

theorem signedAll_eq_map (negated : Bool) (es : List Expr) (d : Dialect) :
    signedAll refuse negated es d = es.map fun e => e.signed refuse negated d := by
  induction es with
  | nil => simp [signedAll]
  | cons e es ih => simp [signedAll, ih]

theorem signed_not_cons_cons (negated : Bool) (c c' : Expr) (es : List Expr) (d : Dialect) :
    (Expr.not (c :: c' :: es)).signed refuse negated d =
      (Fragment.blank d).addGroup " AND ".toList
        (signedAll refuse (!negated) (c :: c' :: es) d) := by
  rw [signed] <;> simp

theorem signed_of_negation?_eq_none {e : Expr} (h : e.negation? = none) (negated : Bool)
    (d : Dialect) :
    e.signed refuse negated d =
      if negated then ⟨refuse e (e.steps.foldl (Step.signed refuse) (.blank d)), false⟩
      else ⟨e.steps.foldl (Step.signed refuse) (.blank d), e.isLoose⟩ := by
  cases e with
  | empty | column | template | caseWhen | aliased =>
    rw [signed]
    · simp only [Step.signedAll_eq_foldl]
    all_goals simp
  | _ => cases h

theorem negatedIf_of_some {e n : Expr} (hn : e.negation? = some n) (negated : Bool) :
    e.negatedIf negated = if negated then n else e := by
  rw [negatedIf, hn, Option.getD_some]

/-- A predicate is written by the steps of its opposite under the negative sign, -/
theorem signed_of_isGroup_eq_false {e n : Expr} (hn : e.negation? = some n)
    (hg : e.isGroup = false) (negated : Bool) (d : Dialect) :
    e.signed refuse negated d =
      ⟨(e.negatedIf negated).steps.foldl (Step.signed refuse) (.blank d),
        (e.negatedIf negated).isLoose⟩ := by
  rw [negatedIf_of_some hn]
  cases e with
  | comparison | membership | between =>
    obtain rfl := Option.some.inj hn
    rw [signed, Step.signedAll_eq_foldl]
    cases negated <;> simp [steps, isLoose, Operator.negatedIf]
  | and | or | not => cases hg
  | _ => cases hn

/-- which is a predicate and weighs the same. -/
theorem isGroup_and_weight_negatedIf {e n : Expr} (hn : e.negation? = some n)
    (hg : e.isGroup = false) (negated : Bool) :
    (e.negatedIf negated).isGroup = false ∧ (e.negatedIf negated).weight = e.weight := by
  rw [negatedIf_of_some hn]
  cases e with
  | comparison | membership | between =>
    obtain rfl := Option.some.inj hn
    cases negated <;> exact ⟨rfl, by simp [weight]⟩
  | and | or | not => cases hg
  | _ => cases hn

end Expr

end Equations

/-! ## A group of one member is that member -/

namespace Expr

variable {d : Dialect}

theorem loose_of_isVoid_addGroup {separator : List Char} {ps : List Operand}
    (h : ((Fragment.blank d).addGroup separator ps).fragment.isVoid = true) :
    ((Fragment.blank d).addGroup separator ps).loose = false := by
  rw [Fragment.isVoid_addGroup, Fragment.isVoid_blank, Bool.true_and] at h
  rw [Fragment.addGroup_of_shown_nil (Fragment.shown_eq_nil_iff.mpr (List.all_eq_true.mp h))]

theorem mem_of_occursIn {c : Char} {needle cs : List Char} (h : occursIn (c :: needle) cs = true) :
    c ∈ cs := by
  induction cs with
  | nil => cases h
  | cons b cs ih =>
    rw [occursIn, Bool.or_eq_true] at h
    rcases h with h | h
    · rw [List.isPrefixOf_cons_cons, Bool.and_eq_true] at h
      exact eq_of_beq h.1 ▸ List.mem_cons_self
    · exact List.mem_cons_of_mem _ (ih h)

theorem exists_text_mem_templateSteps {c : Char} (hc : c ≠ '?') {cs : List Char} (h : c ∈ cs)
    (flat opened : Bool) (args : List Arg) :
    ∃ ds, ds ≠ [] ∧ Step.text ds ∈ templateSteps flat opened cs args := by
  fun_induction templateSteps flat opened cs args with
  | case1 => cases h
  | case2 opened cs a args ih =>
    obtain ⟨ds, hds, hmem⟩ := ih ((List.mem_cons.mp h).resolve_left hc)
    exact ⟨ds, hds, List.mem_cons_of_mem _ hmem⟩
  | case3 opened b cs a args hb ih => exact ⟨[b], List.cons_ne_nil _ _, List.mem_cons_self⟩
  | case4 opened cs => exact ⟨cs, List.ne_nil_of_mem h, List.mem_singleton_self _⟩

/-- A template whose text joins conditions has a text of its own. -/
theorem exists_text_mem_steps_of_isLoose {e : Expr} (h : e.isLoose = true) :
    e.isGroup = false ∧ ∃ cs, cs ≠ [] ∧ Step.text cs ∈ e.steps := by
  cases e with
  | template sql args flat =>
    simp only [isLoose, Bool.and_eq_true, Bool.or_eq_true] at h
    have space : ' ' ∈ sql.toList.map Char.toUpper := by
      rcases h.2 with h | h <;> exact mem_of_occursIn h
    obtain ⟨c, hc, upper⟩ := List.mem_map.mp space
    have mark : c ≠ '?' := by
      rintro rfl
      exact absurd upper (by decide)
    exact ⟨rfl, exists_text_mem_templateSteps mark hc flat false (effective args)⟩
  | _ => cases h

theorem isLoose_eq_false_of_isVoid {e : Expr} (h : (e.fragment d).isVoid = true) :
    e.isLoose = false := by
  refine Bool.eq_false_iff.mpr fun hl => ?_
  obtain ⟨hg, cs, hcs, hmem⟩ := exists_text_mem_steps_of_isLoose hl
  have worded := isWordless_fragment_of_text_mem (d := d) hg hcs hmem
  rw [Fragment.isVoid_of_isWordless_eq_false worded] at h
  cases h

theorem write_of_isVoid {e : Expr} (h : (e.fragment d).isVoid = true) :
    e.write (.blank d) = ⟨.blank d, false⟩ := by
  have loose : (e.write (.blank d)).loose = false := by
    rw [fragment] at h
    cases hg : e.isGroup with
    | false =>
      rw [write_of_isGroup_eq_false hg]
      exact isLoose_eq_false_of_isVoid h
    | true =>
      cases e with
      | and es => rw [write_and] at h ⊢; exact loose_of_isVoid_addGroup h
      | or es => rw [write_or] at h ⊢; exact loose_of_isVoid_addGroup h
      | not es => rw [write_not] at h ⊢; exact loose_of_isVoid_addGroup h
      | _ => cases hg
  rw [e.write_eq_append, Fragment.dialect_blank, Fragment.append_of_isVoid _ h, loose]

theorem addGroup_singleton (separator : List Char) (e : Expr) :
    (Fragment.blank d).addGroup separator [e.write (.blank d)] = e.write (.blank d) := by
  cases h : (e.fragment d).isVoid with
  | true =>
    have none : Fragment.shown [e.write (.blank d)] = [] :=
      Fragment.shown_eq_nil_iff.mpr fun p hp => List.mem_singleton.mp hp ▸ h
    rw [Fragment.addGroup_of_shown_nil none, write_of_isVoid h]
  | false =>
    have one : Fragment.shown [e.write (.blank d)] = [e.write (.blank d)] := by
      rw [fragment] at h
      simp [Fragment.shown, h]
    rw [Fragment.addGroup_of_shown_single one]
    exact (e.write_eq_append (.blank d)).symm

end Expr

/-! ## The pass writes what the negated tree writes -/

theorem Arg.signed_refused {a : Arg}
    (inner : ∀ e, a.expr? = some e → ∀ d, e.signed Expr.refused false d = e.write (.blank d))
    (mode : Mode) (f : Fragment) : a.signed Expr.refused mode f = a.write mode f := by
  cases a with
  | value v => rw [Arg.signed]
  | list vs => rw [Arg.signed]
  | expr e => rw [Arg.signed, inner e rfl, Arg.write_expr, Expr.fragment]
  | verbatim e => rw [Arg.signed, inner e rfl, Arg.write_verbatim, Expr.fragment]

theorem Step.foldl_signed_refused {steps : List Step}
    (inner : ∀ s ∈ steps, ∀ a, s.arg? = some a → ∀ e, a.expr? = some e →
      ∀ d, e.signed Expr.refused false d = e.write (.blank d)) (f : Fragment) :
    steps.foldl (Step.signed Expr.refused) f = steps.foldl Step.write f := by
  refine List.foldl_ext _ _ f fun g s hs => ?_
  cases s with
  | arg mode a => exact Arg.signed_refused (inner _ hs a rfl) mode g
  | _ => rfl

namespace Expr

/-! ### What is written for the negation of a connective -/

section Negated

variable {d : Dialect}

theorem member_eq_write (negated : Bool) (e : Expr) :
    e.member negated d = (e.negatedIf negated).write (.blank d) := by
  cases negated with
  | false => rfl
  | true => exact refusal_eq_write e d

/-- A group, or its negation, joins its children, turned or as they are. -/
theorem write_negatedIf_group (negated : Bool) (k : Connective) (es : List Expr) :
    ((k.group es).negatedIf negated).write (.blank d) =
      (Fragment.blank d).addGroup (if negated then k.opposite else k).separator
        (es.map (member (k.negates != negated) d)) := by
  cases negated with
  | false =>
    rw [Bool.bne_false]
    exact write_group_eq_addGroup k es (.blank d)
  | true =>
    obtain ⟨n, hn, hwrite⟩ := exists_negation?_group k es
    rw [negatedIf_of_some hn, Bool.bne_true]
    exact hwrite (.blank d)

theorem addGroup_member (separator : List Char) (negated : Bool) (e : Expr) :
    (Fragment.blank d).addGroup separator [e.member negated d] =
      (e.negatedIf negated).write (.blank d) := by
  rw [member_eq_write, addGroup_singleton]

end Negated

/-! ### The induction on the weight -/

/-- The pass writes the expression, and under the negative sign its negation. -/
def IsSigned (e : Expr) : Prop :=
  ∀ negated d, e.signed refused negated d = (e.negatedIf negated).write (.blank d)

theorem isSigned_of_isGroup_eq_false {e : Expr} (hg : e.isGroup = false)
    (smaller : ∀ c : Expr, c.weight < e.weight → c.IsSigned) : e.IsSigned := by
  intro negated d
  -- the steps of a predicate and of its opposite weigh the same, so the induction covers both
  have leaf (c : Expr) (hc : c.weight = e.weight) (hg : c.isGroup = false) :
      c.steps.foldl (Step.signed refused) (.blank d) = c.fragment d := by
    rw [Step.foldl_signed_refused, fragment, write_of_isGroup_eq_false hg]
    exact fun s hs a ha x hx => smaller x (hc ▸ weight_lt_of_mem_steps hs ha hx) false
  cases hn : e.negation? with
  | none =>
    have alone := refusal_eq_write e d
    rw [signed_of_negation?_eq_none hn, leaf e rfl hg, negatedIf]
    cases negated with
    | false => simp only [Bool.false_eq_true, if_false, fragment, write_of_isGroup_eq_false hg]
    | true => rw [if_pos rfl, if_pos rfl, ← alone, refusal_of_none hn, refused, dialect_fragment]
  | some n =>
    obtain ⟨hgroup, hweight⟩ := isGroup_and_weight_negatedIf hn hg negated
    rw [signed_of_isGroup_eq_false hn hg, leaf _ hweight hgroup, fragment,
      write_of_isGroup_eq_false hgroup]

theorem isSigned_of_isGroup {e : Expr} (hg : e.isGroup = true)
    (smaller : ∀ c : Expr, c.weight < e.weight → c.IsSigned) : e.IsSigned := by
  intro negated d
  have members (es : List Expr) (hes : weights es < e.weight) (negated : Bool) :
      signedAll refused negated es d = es.map (member negated d) := by
    rw [signedAll_eq_map]
    refine List.map_congr_left fun c hc => (smaller c ?_ negated d).trans (member_eq_write _ c).symm
    exact Nat.lt_of_le_of_lt (weight_le_of_mem hc) hes
  have written := write_negatedIf_group (d := d) negated
  cases e with
  | and es =>
    rw [signed, members es (by simp only [weight]; omega)]
    cases negated <;> exact (written .and es).symm
  | or es =>
    rw [signed, members es (by simp only [weight]; omega)]
    cases negated <;> exact (written .or es).symm
  | not es =>
    -- a negation joins what it negates in the same way under both signs
    have joined : ((Expr.not es).negatedIf negated).write (.blank d) =
        (Fragment.blank d).addGroup " AND ".toList (es.map (member (!negated) d)) := by
      cases negated <;> exact written .not es
    rw [joined]
    match es with
    | [] => rw [signed]; rfl
    | [c] =>
      rw [signed, smaller c (by simp only [weight, weights]; omega), List.map_singleton,
        addGroup_member]
    | c :: c' :: es => rw [signed_not_cons_cons, members _ (by simp only [weight]; omega)]
  | _ => cases hg

theorem isSigned (e : Expr) : e.IsSigned := by
  induction e using weight_induction with
  | step e smaller =>
    cases hg : e.isGroup with
    | false => exact isSigned_of_isGroup_eq_false hg smaller
    | true => exact isSigned_of_isGroup hg smaller

end Expr

/-! ## Only what has no opposite is refused -/

section Congr

variable {refuse refuse' : Expr → Fragment → Fragment}

theorem Step.foldl_signed_congr {steps : List Step}
    (inner : ∀ s ∈ steps, ∀ a, s.arg? = some a → ∀ e, a.expr? = some e →
      ∀ d, e.signed refuse false d = e.signed refuse' false d) (f : Fragment) :
    steps.foldl (Step.signed refuse) f = steps.foldl (Step.signed refuse') f := by
  refine List.foldl_ext _ _ f fun g s hs => ?_
  cases s with
  | arg mode a =>
    have here := inner _ hs a rfl
    rw [Step.signed, Step.signed]
    cases a with
    | value v => rw [Arg.signed, Arg.signed]
    | list vs => rw [Arg.signed, Arg.signed]
    | expr e => rw [Arg.signed, Arg.signed, here e rfl]
    | verbatim e => rw [Arg.signed, Arg.signed, here e rfl]
  | _ => rfl

namespace Expr

theorem signed_congr (h : ∀ c g, c.negation? = none → refuse c g = refuse' c g) (e : Expr)
    (negated : Bool) (d : Dialect) : e.signed refuse negated d = e.signed refuse' negated d := by
  induction e using weight_induction generalizing negated d with
  | step e smaller =>
    have leaf (c : Expr) (hc : c.weight = e.weight) (f : Fragment) :
        c.steps.foldl (Step.signed refuse) f = c.steps.foldl (Step.signed refuse') f :=
      Step.foldl_signed_congr
        (fun s hs a ha x hx => smaller x (hc ▸ weight_lt_of_mem_steps hs ha hx) false) f
    have members (es : List Expr) (hes : weights es < e.weight) (negated : Bool) :
        signedAll refuse negated es d = signedAll refuse' negated es d := by
      rw [signedAll_eq_map, signedAll_eq_map]
      refine List.map_congr_left fun c hc => smaller c ?_ negated d
      exact Nat.lt_of_le_of_lt (weight_le_of_mem hc) hes
    cases hg : e.isGroup with
    | false =>
      cases hn : e.negation? with
      | none =>
        rw [signed_of_negation?_eq_none hn, signed_of_negation?_eq_none hn, leaf e rfl, h e _ hn]
      | some n =>
        have hweight := (isGroup_and_weight_negatedIf hn hg negated).2
        rw [signed_of_isGroup_eq_false hn hg, signed_of_isGroup_eq_false hn hg, leaf _ hweight]
    | true =>
      cases e with
      | and es => rw [signed, signed, members es (by simp only [weight]; omega)]
      | or es => rw [signed, signed, members es (by simp only [weight]; omega)]
      | not es =>
        match es with
        | [] => rw [signed, signed]
        | [c] => rw [signed, signed, smaller c (by simp only [weight, weights]; omega)]
        | c :: c' :: es =>
          rw [signed_not_cons_cons, signed_not_cons_cons, members _ (by simp only [weight]; omega)]
      | _ => cases hg

end Expr

end Congr

/-! ## Negated twice -/

namespace Expr

/-- No negation among the connectives has several children. -/
inductive NegatesSingly : Expr → Prop where
  | leaf {e : Expr} (h : e.isGroup = false) : NegatesSingly e
  | and {es : List Expr} (h : ∀ c ∈ es, NegatesSingly c) : NegatesSingly (.and es)
  | or {es : List Expr} (h : ∀ c ∈ es, NegatesSingly c) : NegatesSingly (.or es)
  | nothing : NegatesSingly (.not [])
  | not {c : Expr} (h : NegatesSingly c) : NegatesSingly (.not [c])

theorem exists_negation?_of_negation? {e n : Expr} (hn : e.negation? = some n) :
    ∃ m, n.negation? = some m := by
  cases e with
  | and | or | not | comparison | membership | between =>
    obtain rfl := Option.some.inj hn
    exact ⟨_, rfl⟩
  | _ => cases hn

variable {d : Dialect}

/-- What takes the place of a child under a negation is negated back to it. -/
theorem write_negatedIf_negatedIf {e : Expr}
    (h : ∀ n, e.negation? = some n → (n.negatedIf true).write (.blank d) = e.write (.blank d)) :
    ((e.negatedIf true).negatedIf true).write (.blank d) = e.write (.blank d) := by
  cases hn : e.negation? with
  | some n =>
    rw [negatedIf_of_some hn, if_pos rfl]
    exact h n hn
  | none =>
    have refused : e.negatedIf true = .not [e] := by
      rw [negatedIf, hn]
      rfl
    rw [refused, negatedIf_of_some rfl, if_pos rfl, write_and]
    exact addGroup_singleton _ e

/-- A conjunction or a disjunction is negated back to its children if these are. -/
theorem write_negatedIf_opposite {k : Connective} (hk : k.negates = false) {es : List Expr}
    (h : ∀ c ∈ es, ∀ n, c.negation? = some n →
      (n.negatedIf true).write (.blank d) = c.write (.blank d)) :
    ((k.opposite.group (negations es)).negatedIf true).write (.blank d) =
      (k.group es).write (.blank d) := by
  have children : (negations es).map (member true d) = es.map (member false d) := by
    rw [negations_eq_map, List.map_map]
    refine List.map_congr_left fun c hc => ?_
    exact (member_eq_write true _).trans (write_negatedIf_negatedIf (h c hc))
  rw [write_negatedIf_group, write_group_eq_addGroup]
  cases k with
  | and | or => exact congrArg ((Fragment.blank d).addGroup _) children
  | not => cases hk

theorem NegatesSingly.write_negatedIf {e n : Expr} (h : e.NegatesSingly)
    (hn : e.negation? = some n) : (n.negatedIf true).write (.blank d) = e.write (.blank d) := by
  induction h generalizing n with
  | @leaf e hg =>
    cases e with
    | comparison op =>
      obtain rfl := Option.some.inj hn
      simp [negatedIf, negation?]
    | membership | between =>
      obtain rfl := Option.some.inj hn
      simp [negatedIf, negation?]
    | and | or | not => cases hg
    | _ => cases hn
  | and _ ih =>
    obtain rfl := Option.some.inj hn
    exact write_negatedIf_opposite (k := .and) rfl fun c hc n => ih c hc
  | or _ ih =>
    obtain rfl := Option.some.inj hn
    exact write_negatedIf_opposite (k := .or) rfl fun c hc n => ih c hc
  | nothing =>
    obtain rfl := Option.some.inj hn
    exact (write_negatedIf_group true .and []).trans (write_group_eq_addGroup .not [] _).symm
  | @not c _ ih =>
    obtain rfl := Option.some.inj hn
    calc ((Expr.and [c]).negatedIf true).write (.blank d)
        = (Fragment.blank d).addGroup " OR ".toList [c.member true d] :=
          write_negatedIf_group true .and [c]
      _ = (Fragment.blank d).addGroup " AND ".toList [c.member true d] := by
          rw [addGroup_member, addGroup_member]
      _ = (Expr.not [c]).write (.blank d) := (write_group_eq_addGroup .not [c] (.blank d)).symm

theorem signed_refused_false (e : Expr) (d : Dialect) :
    e.signed refused false d = e.write (.blank d) :=
  e.isSigned false d

theorem spliced_write (e : Expr) (f : Fragment) :
    f.spliced (e.write (.blank f.dialect)) = e.write f :=
  (e.write_eq_append f).symm

end Expr

/-- An expression is written by one pass over it under the positive sign, and its negation, whether it
has a form of its own or not, by the same pass under the negative sign: the same text and values, and
the same answer to whether it needs brackets. The pass asks for a refusal only where an expression has
no negated form. Without negations of several children, what is negated twice is written as it was. -/
theorem negation_is_written_under_a_sign (e : Expr) (f : Fragment) :
    e.write f = f.spliced (e.signed Expr.refused false f.dialect) ∧
      (∀ n, e.negation? = some n →
        n.write f = f.spliced (e.signed Expr.refused true f.dialect)) ∧
      (Expr.not [e]).write f = f.spliced (e.signed Expr.refused true f.dialect) ∧
      (∀ refuse : Expr → Fragment → Fragment,
        (∀ c g, c.negation? = none → refuse c g = c.refused g) →
        ∀ negated, e.signed refuse negated f.dialect = e.signed Expr.refused negated f.dialect) ∧
      (e.NegatesSingly → ∀ n, e.negation? = some n →
        ∃ m, n.negation? = some m ∧ m.write f = e.write f) := by
  have pass (c : Expr) : c.write f = f.spliced (c.signed Expr.refused false f.dialect) := by
    rw [c.signed_refused_false, c.spliced_write]
  refine ⟨pass e, fun n hn => ?_, ?_, fun refuse h negated => Expr.signed_congr h e negated _,
    fun h n hn => ?_⟩
  · have negated := e.isSigned true f.dialect
    rw [Expr.negatedIf_of_some hn, if_pos rfl] at negated
    rw [negated, n.spliced_write]
  · rw [pass (.not [e]), Expr.signed, Bool.not_false]
  · obtain ⟨m, hm⟩ := Expr.exists_negation?_of_negation? hn
    have back := h.write_negatedIf (d := f.dialect) hn
    rw [Expr.negatedIf_of_some hm, if_pos rfl] at back
    exact ⟨m, hm, by rw [← m.spliced_write, back, e.spliced_write]⟩

/-- A conjunction of a negated disjunction and of a negation of nothing, where only the text that has
no opposite is refused. -/
theorem negation_is_written_under_a_sign_nested :
    let given : Expr := .comparison .gt (.column (.named "a")) (.value (.int 1))
    let e : Expr := .and [.not [.or [given, .text "b"]], .not []]
    let f : Fragment := .blank .postgres
    let refuse (c : Expr) (g : Fragment) := if c.negation?.isNone then c.refused g else .blank .mysql
    e.NegatesSingly ∧ (∀ c g, c.negation? = none → refuse c g = c.refused g) ∧
      ∃ n m, e.negation? = some n ∧ n.write f = f.spliced (e.signed refuse true .postgres) ∧
        n.negation? = some m ∧ m.write f = e.write f := by
  intro given e f refuse
  have single : e.NegatesSingly := by
    refine .and fun c hc => ?_
    simp only [List.mem_cons, List.not_mem_nil, or_false] at hc
    rcases hc with rfl | rfl
    · refine .not (.or fun c hc => .leaf ?_)
      simp only [List.mem_cons, List.not_mem_nil, or_false] at hc
      rcases hc with rfl | rfl <;> rfl
    · exact .nothing
  have refuses (c : Expr) (g : Fragment) (h : c.negation? = none) : refuse c g = c.refused g := by
    simp [refuse, h]
  obtain ⟨-, negated, -, same, twice⟩ := negation_is_written_under_a_sign e f
  obtain ⟨m, hm, back⟩ := twice single _ rfl
  exact ⟨single, refuses, _, m, rfl, (same refuse refuses true).symm ▸ negated _ rfl, hm, back⟩

end SqlClause
