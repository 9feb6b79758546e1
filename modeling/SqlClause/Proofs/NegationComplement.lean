import Mathlib.Data.Nat.Basic
import Mathlib.Logic.Basic
import SqlClause.Proofs.ConditionReading

/-! # Where a negation holds

The negated form of a negation is the conjunction of its children. That is its complement as long as
the children agree, so the negated form of a condition never holds together with it, and it fails
together with it exactly where the children of some negation disagree and nothing else decides. -/

namespace SqlClause

variable {D : Type} [LinearOrder D]

namespace Reading

mutual

/-- Whether neither a condition nor its negated form holds. The children of a negation do so by
disagreeing. -/
def undecided (r : Reading D) (d : Dialect) : Expr → Bool
  | .and children => r.anyUndecided d children && r.noneRefuted d children
  | .or children => r.anyUndecided d children && (r.verdicts d children).all (!·)
  | .not children => (r.verdicts d children).any id && (r.verdicts d children).any (!·)
  | _ => false

def anyUndecided (r : Reading D) (d : Dialect) : List Expr → Bool
  | [] => false
  | e :: es => r.undecided d e || r.anyUndecided d es

/-- Whether no negated form holds. -/
def noneRefuted (r : Reading D) (d : Dialect) : List Expr → Bool
  | [] => true
  | e :: es => (r.holds? d e != some false || r.undecided d e) && r.noneRefuted d es

end

variable {r : Reading D} {d : Dialect}

theorem anyUndecided_iff {es : List Expr} :
    r.anyUndecided d es = true ↔ ∃ e ∈ es, r.undecided d e = true := by
  induction es with
  | nil => simp [anyUndecided]
  | cons e es ih => simp [anyUndecided, ih]

theorem anyUndecided_eq_false {es : List Expr} (h : ∀ e ∈ es, r.undecided d e = false) :
    r.anyUndecided d es = false := by
  refine Bool.eq_false_iff.mpr fun hu => ?_
  obtain ⟨e, he, hu⟩ := anyUndecided_iff.mp hu
  rw [h e he] at hu
  cases hu

theorem noneRefuted_iff {es : List Expr} :
    r.noneRefuted d es = true ↔
      ∀ e ∈ es, r.holds? d e = some false → r.undecided d e = true := by
  induction es with
  | nil => simp [noneRefuted]
  | cons e es ih =>
    rw [noneRefuted, Bool.and_eq_true, ih, List.forall_mem_cons]
    refine and_congr_left fun _ => ?_
    rw [Bool.or_eq_true, bne_iff_ne, ne_eq, ← imp_iff_not_or]

theorem verdicts_all_not_iff {es : List Expr} :
    (r.verdicts d es).all (!·) = true ↔ ∀ e ∈ es, r.holds? d e ≠ some true := by
  simp only [List.all_eq_true, Bool.not_eq_true', mem_verdicts_iff]
  constructor
  · intro h e he ht
    exact absurd (h true ⟨e, he, ht⟩) (by simp)
  · rintro h b ⟨e, he, hb⟩
    cases b with
    | false => rfl
    | true => exact absurd hb (h e he)

/-- An undecided condition does not hold. -/
theorem holds?_of_undecided : ∀ {e : Expr}, r.undecided d e = true → r.holds? d e = some false
  | .and es, h => by
    rw [undecided, Bool.and_eq_true, anyUndecided_iff] at h
    obtain ⟨⟨e, he, hu⟩, -⟩ := h
    have mem : false ∈ r.verdicts d es := (mem_verdicts_iff r d).mpr ⟨e, he, holds?_of_undecided hu⟩
    rw [holds?, joined_eq_some_iff]
    exact ⟨List.ne_nil_of_mem mem, List.all_eq_false.mpr ⟨false, mem, by simp⟩⟩
  | .or es, h => by
    rw [undecided, Bool.and_eq_true, anyUndecided_iff] at h
    obtain ⟨⟨e, he, hu⟩, hall⟩ := h
    have mem : false ∈ r.verdicts d es := (mem_verdicts_iff r d).mpr ⟨e, he, holds?_of_undecided hu⟩
    rw [holds?, joined_eq_some_iff]
    refine ⟨List.ne_nil_of_mem mem, List.any_eq_false.mpr fun b hb => ?_⟩
    simpa using List.all_eq_true.mp hall b hb
  | .not es, h => by
    rw [undecided, Bool.and_eq_true, List.any_eq_true] at h
    obtain ⟨⟨b, mem, hb⟩, -⟩ := h
    rw [holds?, joined_eq_some_iff]
    exact ⟨List.ne_nil_of_mem mem, List.all_eq_false.mpr ⟨b, mem, by simpa using hb⟩⟩
  | .empty, h | .column _, h | .template _ _ _, h | .comparison _ _ _, h | .membership _ _ _, h
  | .between _ _ _ _, h | .caseWhen _ _ _, h | .aliased _ _, h => by
    simp [undecided] at h
termination_by e => e.weight
decreasing_by
  all_goals
    have := Expr.weight_le_of_mem he
    simp only [Expr.weight]
    omega

variable (r d) in
/-- What the truth of the negated form of a condition turns out to be. -/
def refuted? (e : Expr) : Option Bool := (r.holds? d e).map fun b => !b && !r.undecided d e

theorem refuted?_eq_none_iff {e : Expr} : r.refuted? d e = none ↔ r.holds? d e = none := by
  rw [refuted?, Option.map_eq_none_iff]

theorem refuted?_eq_true_iff {e : Expr} :
    r.refuted? d e = some true ↔ r.holds? d e = some false ∧ r.undecided d e = false := by
  rw [refuted?, Option.map_eq_some_iff]
  constructor
  · rintro ⟨b, hb, h⟩
    cases b <;> simp_all
  · rintro ⟨hb, h⟩
    exact ⟨false, hb, by simp [h]⟩

theorem filterMap_refuted?_eq_nil_iff {es : List Expr} :
    es.filterMap (r.refuted? d) = [] ↔ r.verdicts d es = [] := by
  simp only [verdicts_eq_filterMap, List.filterMap_eq_nil_iff, refuted?_eq_none_iff]

/-- The disjunction of negated forms against the conjunction that it is to negate. -/
theorem any_filterMap_refuted? (es : List Expr) :
    (es.filterMap (r.refuted? d)).any id =
      (!(r.verdicts d es).all id && !(r.anyUndecided d es && r.noneRefuted d es)) := by
  have exists_iff : (es.filterMap (r.refuted? d)).any id = !r.noneRefuted d es := by
    rw [Bool.eq_iff_iff, Bool.not_eq_true', ← Bool.not_eq_true, noneRefuted_iff, List.any_eq_true]
    simp only [id, exists_eq_right, List.mem_filterMap, refuted?_eq_true_iff, not_forall,
      Bool.not_eq_true, exists_prop]
  rw [exists_iff]
  cases hn : r.noneRefuted d es with
  | false =>
    rw [← Bool.not_eq_true, noneRefuted_iff] at hn
    simp only [not_forall, exists_prop] at hn
    obtain ⟨e, he, hf, -⟩ := hn
    have some : (r.verdicts d es).all id = false :=
      List.all_eq_false.mpr ⟨false, (mem_verdicts_iff r d).mpr ⟨e, he, hf⟩, by simp⟩
    simp [some]
  | true =>
    rw [noneRefuted_iff] at hn
    cases hu : r.anyUndecided d es with
    | true => simp
    | false =>
      have all : (r.verdicts d es).all id = true := by
        refine List.all_eq_true.mpr fun b hb => ?_
        obtain ⟨e, he, hb⟩ := (mem_verdicts_iff r d).mp hb
        cases b with
        | true => rfl
        | false =>
          have := anyUndecided_iff.mpr ⟨e, he, hn e he hb⟩
          rw [hu] at this
          cases this
      simp [all]

/-- The conjunction of negated forms against the disjunction that it is to negate. -/
theorem all_filterMap_refuted? (es : List Expr) :
    (es.filterMap (r.refuted? d)).all id =
      (!(r.verdicts d es).any id && !(r.anyUndecided d es && (r.verdicts d es).all (!·))) := by
  have dual : (!(r.verdicts d es).any id) = (r.verdicts d es).all (!·) := by
    rw [List.not_any_eq_all_not]
    rfl
  rw [dual]
  cases hn : (r.verdicts d es).all (!·) with
  | false =>
    rw [Bool.false_and]
    obtain ⟨b, hb, ht⟩ := List.all_eq_false.mp hn
    obtain ⟨e, he, hb⟩ := (mem_verdicts_iff r d).mp hb
    refine List.all_eq_false.mpr ⟨false, List.mem_filterMap.mpr ⟨e, he, ?_⟩, by simp⟩
    simp_all [refuted?]
  | true =>
    rw [verdicts_all_not_iff] at hn
    cases hu : r.anyUndecided d es with
    | true =>
      obtain ⟨e, he, hu⟩ := anyUndecided_iff.mp hu
      refine List.all_eq_false.mpr ⟨false, List.mem_filterMap.mpr ⟨e, he, ?_⟩, by simp⟩
      simp [refuted?, hu, holds?_of_undecided hu]
    | false =>
      refine List.all_eq_true.mpr fun b hb => ?_
      obtain ⟨e, he, hb⟩ := List.mem_filterMap.mp hb
      rw [refuted?, Option.map_eq_some_iff] at hb
      obtain ⟨v, hv, rfl⟩ := hb
      have decided : r.undecided d e = false := by
        refine Bool.eq_false_iff.mpr fun h => ?_
        rw [anyUndecided_iff.mpr ⟨e, he, h⟩] at hu
        cases hu
      cases v with
      | false => simp [decided]
      | true => exact absurd hv (hn e he)

/-- All hold if and only if some do and none disagree. -/
theorem all_eq_of_ne_nil {bs : List Bool} (h : bs ≠ []) :
    bs.all id = (!bs.all (!·) && !(bs.any id && bs.any (!·))) := by
  have hall : bs.all (!·) = !bs.any id := by rw [List.not_any_eq_all_not]; rfl
  have hany : bs.any (!·) = !bs.all id := by rw [List.not_all_eq_any_not]; rfl
  have some : bs.all id = true → bs.any id = true := by
    intro ha
    obtain ⟨b, hb⟩ := List.exists_mem_of_ne_nil bs h
    exact List.any_eq_true.mpr ⟨b, hb, List.all_eq_true.mp ha b hb⟩
  rw [hall, hany]
  revert some
  cases bs.all id <;> cases bs.any id <;> simp

/-- Verdicts joined to the opposite of what others are joined to, unless it is undecided. -/
theorem joined_eq_map {join join' : List Bool → Bool} {bs bs' : List Bool} {undecided : Bool}
    (hnil : bs' = [] ↔ bs = []) (h : bs ≠ [] → join' bs' = (!join bs && !undecided)) :
    joined join' bs' = (joined join bs).map fun b => !b && !undecided := by
  by_cases hbs : bs = []
  · rw [hbs, hnil.mpr hbs]
    rfl
  · rw [joined_of_ne_nil hbs, joined_of_ne_nil (mt hnil.mp hbs), Option.map_some, h hbs]

theorem undecided_of_negation?_eq_none {e : Expr} (h : e.negation? = none) :
    r.undecided d e = false := by
  cases e <;> first | rfl | cases h

theorem holds?_not_singleton (e : Expr) :
    r.holds? d (.not [e]) = (r.holds? d e).map (!·) := by
  rw [holds?, verdicts, verdicts, List.append_nil]
  cases r.holds? d e <;> simp [joined]

mutual

/-- The negated form of a condition holds where the condition does not, unless it is undecided. -/
theorem holds?_of_negation? : ∀ {e n : Expr}, e.negation? = some n →
    r.holds? d n = r.refuted? d e
  | .and es, n, h => by
    obtain rfl := Option.some.inj h
    rw [holds?, verdicts_negations es, refuted?, holds?, undecided]
    exact joined_eq_map filterMap_refuted?_eq_nil_iff fun _ => any_filterMap_refuted? es
  | .or es, n, h => by
    obtain rfl := Option.some.inj h
    rw [holds?, verdicts_negations es, refuted?, holds?, undecided]
    exact joined_eq_map filterMap_refuted?_eq_nil_iff fun _ => all_filterMap_refuted? es
  | .not es, n, h => by
    obtain rfl := Option.some.inj h
    rw [holds?, refuted?, holds?, undecided]
    exact joined_eq_map Iff.rfl all_eq_of_ne_nil
  | .comparison op left right, n, h => by
    obtain rfl := Option.some.inj h
    simp [refuted?, holds?, undecided, compares_negated]
  | .membership left values negated, n, h => by
    obtain rfl := Option.some.inj h
    simp [refuted?, holds?, undecided]
  | .between left low high negated, n, h => by
    obtain rfl := Option.some.inj h
    simp [refuted?, holds?, undecided]
  | .empty, n, h | .column _, n, h | .template _ _ _, n, h | .caseWhen _ _ _, n, h
  | .aliased _ _, n, h => by
    simp [Expr.negation?] at h

theorem verdicts_negations : ∀ es : List Expr,
    r.verdicts d (Expr.negations es) = es.filterMap (r.refuted? d)
  | [] => rfl
  | e :: es => by
    rw [Expr.negations, verdicts, verdicts_negations es, List.filterMap_cons]
    cases h : e.negation? with
    | some n =>
      rw [Option.getD_some, holds?_of_negation? h]
      cases r.refuted? d e <;> rfl
    | none =>
      rw [Option.getD_none, holds?_not_singleton, refuted?, undecided_of_negation?_eq_none h]
      cases r.holds? d e <;> simp

end

end Reading

section Settled

mutual

/-- Whether no negation of several conditions is negated in its turn; `negated` says whether the
expression itself is. -/
def Expr.settled (d : Dialect) (negated : Bool) : Expr → Bool
  | .and children | .or children => Expr.allSettled d negated children
  | .not children =>
    (!negated || (children.filter fun c => !(c.fragment d).isVoid).length ≤ 1) &&
      Expr.allSettled d (!negated) children
  | _ => true

def Expr.allSettled (d : Dialect) (negated : Bool) : List Expr → Bool
  | [] => true
  | e :: es => e.settled d negated && Expr.allSettled d negated es

end

variable {r : Reading D} {d : Dialect}

namespace Expr

theorem allSettled_iff {negated : Bool} {es : List Expr} :
    allSettled d negated es = true ↔ ∀ e ∈ es, e.settled d negated = true := by
  induction es with
  | nil => simp [allSettled]
  | cons e es ih => simp [allSettled, ih]

theorem settled_of_negation?_eq_none {e : Expr} (h : e.negation? = none) (negated : Bool) :
    e.settled d negated = true := by
  cases e <;> first | rfl | cases h

mutual

/-- The negated form of a settled condition has nothing left to negate twice. -/
theorem settled_of_negation? : ∀ {e n : Expr}, e.negation? = some n →
    e.settled d true = true → n.settled d false = true
  | .and es, n, h, hs => by
    obtain rfl := Option.some.inj h
    exact allSettled_negations es hs
  | .or es, n, h, hs => by
    obtain rfl := Option.some.inj h
    exact allSettled_negations es hs
  | .not es, n, h, hs => by
    obtain rfl := Option.some.inj h
    rw [settled, Bool.and_eq_true] at hs
    rw [settled]
    exact hs.2
  | .comparison _ _ _, n, h, _ | .membership _ _ _, n, h, _ | .between _ _ _ _, n, h, _ => by
    obtain rfl := Option.some.inj h
    rfl
  | .empty, n, h, _ | .column _, n, h, _ | .template _ _ _, n, h, _ | .caseWhen _ _ _, n, h, _
  | .aliased _ _, n, h, _ => by
    simp [negation?] at h

theorem allSettled_negations : ∀ es : List Expr,
    allSettled d true es = true → allSettled d false (negations es) = true
  | [], _ => rfl
  | e :: es, hs => by
    rw [allSettled, Bool.and_eq_true] at hs
    rw [negations, allSettled, Bool.and_eq_true]
    refine ⟨?_, allSettled_negations es hs.2⟩
    cases h : e.negation? with
    | some n => exact settled_of_negation? h hs.1
    | none => simp [settled, allSettled, hs.1]

end

end Expr

namespace Reading

theorem length_verdicts (es : List Expr) :
    (r.verdicts d es).length = (es.filter fun e => !(e.fragment d).isVoid).length := by
  induction es with
  | nil => rfl
  | cons e es ih =>
    rw [verdicts, List.length_append, ih, List.filter_cons]
    cases h : r.holds? d e with
    | none => simp [(holds?_eq_none_iff r d).mp h]
    | some b =>
      have full : (e.fragment d).isVoid = false := by
        refine Bool.eq_false_iff.mpr fun hv => ?_
        rw [(holds?_eq_none_iff r d).mpr hv] at h
        cases h
      simp [full, Nat.add_comm]

/-- A negation of at most one condition leaves nothing undecided. -/
theorem undecided_of_settled : ∀ {e : Expr}, e.settled d true = true → r.undecided d e = false
  | .and es, h => by
    rw [Expr.settled, Expr.allSettled_iff] at h
    have none := anyUndecided_eq_false fun e he => undecided_of_settled (h e he)
    rw [undecided, none, Bool.false_and]
  | .or es, h => by
    rw [Expr.settled, Expr.allSettled_iff] at h
    have none := anyUndecided_eq_false fun e he => undecided_of_settled (h e he)
    rw [undecided, none, Bool.false_and]
  | .not es, h => by
    rw [Expr.settled, Bool.and_eq_true, ← length_verdicts (r := r)] at h
    have short : (r.verdicts d es).length ≤ 1 := by simpa using h.1
    rw [undecided]
    match hv : r.verdicts d es with
    | [] => rfl
    | [b] => cases b <;> rfl
    | b :: c :: bs => simp [hv] at short
  | .empty, _ | .column _, _ | .template _ _ _, _ | .comparison _ _ _, _ | .membership _ _ _, _
  | .between _ _ _ _, _ | .caseWhen _ _ _, _ | .aliased _ _, _ => rfl
termination_by e => e.weight
decreasing_by
  all_goals
    have := Expr.weight_le_of_mem he
    simp only [Expr.weight]
    omega

end Reading

end Settled

namespace Reading

mutual

/-- The truth of what is written for a condition. For a negation that is the conjunction of the
negated forms of its children. -/
def written? (r : Reading D) (d : Dialect) (e : Expr) : Option Bool :=
  match e with
  | .and es => joined (·.all id) (r.writtenAll d es)
  | .or es => joined (·.any id) (r.writtenAll d es)
  | .not es => joined (·.all id) (r.refusedAll d es)
  | e => r.holds? d e
termination_by (e.weight, 0)
decreasing_by all_goals simp only [Expr.weight, Prod.lex_def]; omega

def writtenAll (r : Reading D) (d : Dialect) (es : List Expr) : List Bool :=
  match es with
  | [] => []
  | e :: es => (r.written? d e).toList ++ r.writtenAll d es
termination_by (Expr.weights es, es.length)
decreasing_by all_goals simp only [Expr.weights, List.length_cons, Prod.lex_def]; omega

def refusedAll (r : Reading D) (d : Dialect) (es : List Expr) : List Bool :=
  match es with
  | [] => []
  | e :: es =>
    (match _h : e.negation? with
      | some n => r.written? d n
      | none => (r.written? d e).map (!·)).toList ++ r.refusedAll d es
termination_by (3 * Expr.weights es, es.length)
decreasing_by
  · have := Expr.weight_le_of_negation? _h
    simp only [Expr.weights, List.length_cons, Prod.lex_def]
    omega
  · simp only [Expr.weights, List.length_cons, Prod.lex_def]; omega
  · simp only [Expr.weights, List.length_cons, Prod.lex_def]; omega

end

variable {r : Reading D} {d : Dialect}

theorem writtenAll_eq_verdicts {es : List Expr}
    (h : ∀ e ∈ es, r.written? d e = r.holds? d e) : r.writtenAll d es = r.verdicts d es := by
  induction es with
  | nil => rw [writtenAll, verdicts]
  | cons e es ih =>
    rw [writtenAll, verdicts, h e List.mem_cons_self,
      ih fun c hc => h c (List.mem_cons_of_mem _ hc)]

theorem refusedAll_eq_map_verdicts {es : List Expr}
    (hn : ∀ e ∈ es, ∀ n, e.negation? = some n → r.written? d n = (r.holds? d e).map (!·))
    (h : ∀ e ∈ es, e.negation? = none → r.written? d e = r.holds? d e) :
    r.refusedAll d es = (r.verdicts d es).map (!·) := by
  induction es with
  | nil => rw [refusedAll, verdicts, List.map_nil]
  | cons e es ih =>
    rw [refusedAll, verdicts, List.map_append,
      ih (fun c hc => hn c (List.mem_cons_of_mem _ hc))
        fun c hc => h c (List.mem_cons_of_mem _ hc)]
    congr 1
    have mapped : (r.holds? d e).toList.map (!·) = ((r.holds? d e).map (!·)).toList := by
      cases r.holds? d e <;> rfl
    rw [mapped]
    split
    · rename_i n hneg
      rw [hn e List.mem_cons_self n hneg]
    · rename_i hneg
      rw [h e List.mem_cons_self hneg]

/-- What is written for a settled condition holds where the condition does. -/
theorem written?_of_settled {e : Expr} (h : e.settled d false = true) :
    r.written? d e = r.holds? d e := by
  induction e using Expr.writing_induction with
  | steps e hg _ =>
    cases e with
    | and es => cases hg
    | or es => cases hg
    | not es => cases hg
    | _ => simp [written?]
  | and es ih =>
    rw [Expr.settled, Expr.allSettled_iff] at h
    rw [written?, holds?, writtenAll_eq_verdicts fun c hc => ih c hc (h c hc)]
  | or es ih =>
    rw [Expr.settled, Expr.allSettled_iff] at h
    rw [written?, holds?, writtenAll_eq_verdicts fun c hc => ih c hc (h c hc)]
  | not es ih ihn =>
    rw [Expr.settled, Bool.and_eq_true, Expr.allSettled_iff] at h
    have hs : ∀ c ∈ es, c.settled d true = true := h.2
    rw [written?, holds?, refusedAll_eq_map_verdicts]
    · cases r.verdicts d es with
      | nil => rfl
      | cons b bs => simp [joined]
    · intro c hc n hn
      rw [ihn c hc n hn (Expr.settled_of_negation? hn (hs c hc)), holds?_of_negation? hn,
        refuted?, undecided_of_settled (hs c hc)]
      simp
    · intro c hc hn
      exact ih c hc (Expr.settled_of_negation?_eq_none hn false)

end Reading

/-- A negated form holds exactly where the condition does not, if and only if the condition is not
left undecided. A condition in which no negation of several conditions is negated again is never
undecided, and then also what is written for its negation holds exactly where it does not. -/
theorem negation_holds_unless_undecided (d : Dialect) (r : Reading D) {e n : Expr}
    (hn : e.negation? = some n) (full : (e.fragment d).isVoid = false) :
    ∃ b, r.holds? d e = some b ∧
      (r.holds? d n = some (!b) ↔ r.undecided d e = false) ∧
      (e.settled d true = true →
        r.holds? d n = some (!b) ∧ r.written? d (.not [e]) = some (!b)) := by
  have some_verdict : r.holds? d e ≠ none := by
    rw [Ne, Reading.holds?_eq_none_iff, full]
    exact Bool.false_ne_true
  obtain ⟨b, hb⟩ := Option.ne_none_iff_exists'.mp some_verdict
  have hneg : r.holds? d n = some (!b && !r.undecided d e) := by
    rw [Reading.holds?_of_negation? hn, Reading.refuted?, hb, Option.map_some]
  refine ⟨b, hb, ?_, fun hs => ⟨?_, ?_⟩⟩
  · rw [hneg, Option.some.injEq]
    cases hu : r.undecided d e with
    | false => simp
    | true =>
      have fails : b = false := by
        rw [Reading.holds?_of_undecided hu] at hb
        exact (Option.some.inj hb).symm
      simp [fails]
  · rw [hneg, Reading.undecided_of_settled hs, Bool.not_false, Bool.and_true]
  · have settled : (Expr.not [e]).settled d false = true := by
      simp [Expr.settled, Expr.allSettled, hs]
    rw [Reading.written?_of_settled settled, Reading.holds?_not_singleton, hb, Option.map_some]

/-- A conjunction with a negation and an absent condition in it is settled: its negated form holds
where the column is seven. -/
theorem negation_holds_of_conjunction :
    let a : Expr := .comparison .gt (.column (.named "a")) (.value (.int 5))
    let e : Expr := .and [.not [a], .empty, .comparison .ne (.column (.named "b")) (.value .null)]
    let r : Reading Nat :=
      { value := fun _ => 7, scalar := fun _ => 5, row := fun _ => 0, like := fun _ _ => false,
        truth := fun _ => false }
    e.negation? = some (.or (Expr.negations
        [.not [a], .empty, .comparison .ne (.column (.named "b")) (.value .null)])) ∧
      (e.fragment .mysql).isVoid = false ∧ e.settled .mysql true = true ∧
      r.holds? .mysql e = some false ∧ r.written? .mysql (.not [e]) = some true := by
  intro a e r
  have full : (e.fragment .mysql).isVoid = false := by
    simp [e, Expr.isVoid_fragment_and, Expr.isVoid_fragment_comparison]
  have settled : e.settled .mysql true = true := by
    simp [e, a, Expr.settled, Expr.allSettled, Expr.isVoid_fragment_comparison]
  have fails : r.holds? .mysql e = some false := by
    simp [e, a, r, Reading.holds?, Reading.verdicts, Reading.compares, Reading.arg, joined,
      Expr.isVoid_fragment_empty]
  obtain ⟨b, hb, -, written⟩ := negation_holds_unless_undecided .mysql r rfl full
  obtain rfl : b = false := Option.some.inj (hb.symm.trans fails)
  exact ⟨rfl, full, settled, fails, (written settled).2⟩

/-- One of two negated conditions holds and the other does not. Then the negation does not hold, and
neither does its negated form, which asks for both. -/
theorem negation_of_disagreeing_children :
    let a : Expr := .comparison .eq (.column (.named "a")) (.value (.int 1))
    let b : Expr := .comparison .ne (.column (.named "a")) (.value (.int 1))
    let r : Reading Nat :=
      { value := fun _ => 1, scalar := fun _ => 1, row := fun _ => 0, like := fun _ _ => false,
        truth := fun _ => false }
    (Expr.not [a, b]).negation? = some (.and [a, b]) ∧
      ((Expr.not [a, b]).fragment .mysql).isVoid = false ∧
      r.holds? .mysql (.not [a, b]) = some false ∧ r.holds? .mysql (.and [a, b]) = some false := by
  intro a b r
  refine ⟨rfl, ?_, ?_, ?_⟩
  · simp [a, b, Expr.isVoid_fragment_not, Expr.isVoid_fragment_comparison]
  · simp [a, b, r, Reading.holds?, Reading.verdicts, Reading.compares, Reading.isAmong,
      Reading.arg, Arg.isNull, Value.isNull, joined]
  · simp [a, b, r, Reading.holds?, Reading.verdicts, Reading.compares, Reading.isAmong,
      Reading.arg, Arg.isNull, Value.isNull, joined]

end SqlClause
