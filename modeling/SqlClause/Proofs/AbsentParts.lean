import SqlClause.Proofs.BuiltFragments
import SqlClause.Proofs.LooseParts
import SqlClause.Proofs.VoidExpressions

/-! # Absent parts are neutral

An expression is absent if its statement is empty. What a connective writes, and what the negation of
it writes, is made of the children that are not absent, so absent ones may be left out anywhere in a
tree of connectives. -/

namespace SqlClause

/-- A fragment that was put together from operations is void if and only if its statement is empty. -/
theorem Fragment.Sound.isVoid_iff {f : Fragment} (h : f.Sound) :
    f.isVoid = true ↔ f.sql = [] ∧ f.params = [] := by
  refine ⟨fun hv => ⟨chars_of_isVoid hv _, (Fragment.isVoid_iff.mp hv).1⟩, ?_⟩
  rintro ⟨hsql, hparams⟩
  refine Fragment.isVoid_iff.mpr ⟨hparams, List.all_eq_true.mpr fun p hp => ?_⟩
  cases p with
  | text cs => simpa [Part.chars] using List.flatMap_eq_nil_iff.mp hsql _ hp
  | parameter index =>
    have bound := h.below index (List.mem_filterMap.mpr ⟨_, hp, rfl⟩)
    rw [hparams] at bound
    cases bound

namespace Expr

variable {d : Dialect}

/-- The expression writes no text and binds nothing. -/
def IsAbsent (d : Dialect) (e : Expr) : Prop :=
  (e.statement d).sql = [] ∧ (e.statement d).params = []

theorem sound_fragment (e : Expr) (d : Dialect) : (e.fragment d).Sound :=
  Fragment.sound_built d [.expr e]

theorem isAbsent_iff {e : Expr} : e.IsAbsent d ↔ (e.fragment d).isVoid = true := by
  rw [(e.sound_fragment d).isVoid_iff, IsAbsent, statement, Fragment.sql_finish,
    Fragment.params_finish]

theorem isAbsent_of_negation? {e n : Expr} (h : e.negation? = some n) :
    n.IsAbsent d ↔ e.IsAbsent d := by
  rw [isAbsent_iff, isAbsent_iff, isVoid_of_negation? h]

end Expr

inductive Connective where
  | and | or | not

namespace Connective

/-- The children under a connective. -/
def group : Connective → List Expr → Expr
  | .and => .and
  | .or => .or
  | .not => .not

def separator : Connective → List Char
  | .and | .not => " AND ".toList
  | .or => " OR ".toList

/-- Whether a group writes the negations of its children. -/
def negates : Connective → Bool
  | .not => true
  | .and | .or => false

/-- The connective of the negation of a group. -/
def opposite : Connective → Connective
  | .and => .or
  | .or | .not => .and

end Connective

namespace Expr

variable {d : Dialect}

/-- A child in a fragment of its own, as it is or negated. -/
def member (negated : Bool) (d : Dialect) (e : Expr) : Operand :=
  if negated then e.refusal d else e.write (.blank d)

theorem isVoid_member_of_isAbsent {e : Expr} (h : e.IsAbsent d) (negated : Bool) :
    (e.member negated d).fragment.isVoid = true := by
  rw [isAbsent_iff] at h
  cases negated with
  | false => exact h
  | true => exact (isVoid_refusal fun n hn => isVoid_of_negation? hn).trans h

theorem isAbsent_group (k : Connective) (es : List Expr) :
    (k.group es).IsAbsent d ↔ ∀ c ∈ es, c.IsAbsent d := by
  have all : (k.group es).IsAbsent d ↔ (es.all fun c => (c.fragment d).isVoid) = true := by
    rw [isAbsent_iff]
    cases k with
    | and => rw [Connective.group, isVoid_fragment_and]
    | or => rw [Connective.group, isVoid_fragment_or]
    | not => rw [Connective.group, isVoid_fragment_not]
  simp only [all, List.all_eq_true, isAbsent_iff]

theorem write_group_eq_addGroup (k : Connective) (es : List Expr) (f : Fragment) :
    (k.group es).write f = f.addGroup k.separator (es.map (member k.negates f.dialect)) := by
  cases k with
  | and => exact write_and es f
  | or => exact write_or es f
  | not => exact write_not es f

theorem map_write_negations (es : List Expr) (d : Dialect) :
    (negations es).map (fun c => c.write (.blank d)) = es.map (member true d) := by
  rw [negations_eq_map, List.map_map]
  exact List.map_congr_left fun c _ => (refusal_eq_write c d).symm

/-- A group has a negation. It writes a group of the same children, each of which is turned. -/
theorem exists_negation?_group (k : Connective) (es : List Expr) :
    ∃ n, (k.group es).negation? = some n ∧ ∀ f : Fragment,
      n.write f = f.addGroup k.opposite.separator (es.map (member (!k.negates) f.dialect)) := by
  cases k with
  | and => exact ⟨_, rfl, fun f => by rw [write_or, map_write_negations]; rfl⟩
  | or => exact ⟨_, rfl, fun f => by rw [write_and, map_write_negations]; rfl⟩
  | not => exact ⟨_, rfl, fun f => write_and es f⟩

/-- One absent child of a connective is left out, at any depth under connectives. -/
inductive Drops (d : Dialect) : Expr → Expr → Prop where
  | here (k : Connective) (before : List Expr) {c : Expr} (after : List Expr)
      (absent : c.IsAbsent d) :
      Drops d (k.group (before ++ c :: after)) (k.group (before ++ after))
  | inside (k : Connective) (before : List Expr) {c c' : Expr} (after : List Expr)
      (drops : Drops d c c') :
      Drops d (k.group (before ++ c :: after)) (k.group (before ++ c' :: after))

/-- The second expression and its negation are written as the first and its negation are, into every
fragment of the dialect. -/
structure SameWriting (d : Dialect) (e e' : Expr) : Prop where
  write : ∀ f : Fragment, f.dialect = d → e'.write f = e.write f
  negation : ∀ f : Fragment, f.dialect = d →
    e'.negation?.map (fun n => n.write f) = e.negation?.map fun n => n.write f
  refusal : e'.refusal d = e.refusal d

theorem SameWriting.refl (e : Expr) : SameWriting d e e :=
  ⟨fun _ _ => rfl, fun _ _ => rfl, rfl⟩

theorem SameWriting.trans {e₁ e₂ e₃ : Expr} (h : SameWriting d e₁ e₂) (h' : SameWriting d e₂ e₃) :
    SameWriting d e₁ e₃ where
  write f hf := (h'.write f hf).trans (h.write f hf)
  negation f hf := (h'.negation f hf).trans (h.negation f hf)
  refusal := h'.refusal.trans h.refusal

theorem SameWriting.member {e e' : Expr} (h : SameWriting d e e') (negated : Bool) :
    e'.member negated d = e.member negated d := by
  cases negated with
  | false => exact h.write (.blank d) rfl
  | true => exact h.refusal

/-- Groups that write the same members are written alike, and so are their negations. -/
theorem sameWriting_group (k : Connective) {es es' : List Expr}
    (h : ∀ negated, Fragment.shown (es'.map (member negated d)) =
      Fragment.shown (es.map (member negated d))) :
    SameWriting d (k.group es) (k.group es') := by
  have groups (f : Fragment) (separator : List Char) (negated : Bool) :
      f.addGroup separator (es'.map (member negated d)) =
        f.addGroup separator (es.map (member negated d)) := by
    have same := h negated
    simp only [Fragment.shown] at same
    simp only [Fragment.addGroup, same]
  obtain ⟨n, hn, hwrite⟩ := exists_negation?_group k es
  obtain ⟨n', hn', hwrite'⟩ := exists_negation?_group k es'
  have negation (f : Fragment) (hf : f.dialect = d) : n'.write f = n.write f := by
    rw [hwrite, hwrite', hf, groups]
  refine ⟨fun f hf => ?_, fun f hf => ?_, ?_⟩
  · rw [write_group_eq_addGroup, write_group_eq_addGroup, hf, groups]
  · rw [hn, hn', Option.map_some, Option.map_some, negation f hf]
  · rw [refusal_of_some hn, refusal_of_some hn', negation _ (Fragment.dialect_blank d)]

/-- The step: what is left out was not written, neither as it is nor negated. -/
theorem Drops.sameWriting {e e' : Expr} (h : Drops d e e') : SameWriting d e e' := by
  induction h with
  | here k before after absent =>
    refine sameWriting_group k fun negated => ?_
    simp [Fragment.shown, isVoid_member_of_isAbsent absent negated]
  | inside k before after _ ih =>
    refine sameWriting_group k fun negated => ?_
    rw [List.map_append, List.map_append, List.map_cons, List.map_cons, ih.member negated]

theorem sameWriting_of_drops {e e' : Expr} (h : Relation.ReflTransGen (Drops d) e e') :
    SameWriting d e e' := by
  induction h with
  | refl => exact .refl e
  | tail _ step ih => exact ih.trans step.sameWriting

end Expr

/-- A conjunction, a disjunction and a negation are absent if and only if all their children are; a
negation is absent if and only if what it negates is. Absent children that are left out, any number of
them and at any depth under connectives, change neither the statement nor the answer to whether the
expression needs brackets, nor what its negation writes. -/
theorem absent_parts_are_neutral (d : Dialect) :
    (∀ (k : Connective) (es : List Expr),
        (k.group es).IsAbsent d ↔ ∀ c ∈ es, c.IsAbsent d) ∧
      (∀ e n : Expr, e.negation? = some n → (n.IsAbsent d ↔ e.IsAbsent d)) ∧
      ∀ e e' : Expr, Relation.ReflTransGen (Expr.Drops d) e e' →
        e'.statement d = e.statement d ∧
          ∀ f : Fragment, f.dialect = d → e'.write f = e.write f ∧
            e'.negation?.map (fun n => n.write f) = e.negation?.map fun n => n.write f := by
  refine ⟨Expr.isAbsent_group, fun e n hn => Expr.isAbsent_of_negation? hn, fun e e' h => ?_⟩
  have same := Expr.sameWriting_of_drops h
  have whole : e'.fragment d = e.fragment d :=
    congrArg Operand.fragment (same.write (.blank d) (Fragment.dialect_blank d))
  exact ⟨congrArg Fragment.finish whole, fun f hf => ⟨same.write f hf, same.negation f hf⟩⟩

/-- A search with two criteria of which one is not given, under a negation. -/
theorem absent_criterion_is_neutral :
    let given : Expr := .comparison .gt (.column (.named "a")) (.value (.int 1))
    let e (criteria : List Expr) : Expr := .not [.and [given, .or criteria]]
    Relation.ReflTransGen (Expr.Drops .postgres) (e [.not [.empty], given]) (e [given]) ∧
      (e [given]).statement .postgres = (e [.not [.empty], given]).statement .postgres := by
  intro given e
  have absent : (Expr.not [.empty]).IsAbsent .postgres :=
    (Expr.isAbsent_group .not [.empty]).mpr fun c hc => by
      rw [List.mem_singleton.mp hc, Expr.isAbsent_iff, Expr.isVoid_fragment_empty]
  have drops : Relation.ReflTransGen (Expr.Drops .postgres) (e [.not [.empty], given]) (e [given]) :=
    .single (.inside .not [] [] (.inside .and [given] [] (.here .or [] [given] absent)))
  exact ⟨drops, ((absent_parts_are_neutral .postgres).2.2 _ _ drops).1⟩

end SqlClause
