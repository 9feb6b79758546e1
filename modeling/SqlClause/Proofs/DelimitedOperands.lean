import Mathlib
import SqlClause.Proofs.BracketPairs
import SqlClause.Proofs.TemplateWalk

/-! # Operands of templates are delimited

Where a template adds brackets, an expression is written so that it keeps its meaning next to any
operator: as a case, as an atomic text, or in one pair of brackets. An argument that only passes on
its own is replaced first, and the argument in its place decides about the brackets. -/

namespace SqlClause

namespace Fragment

/-! ## The fragment around one argument -/

theorem append_spliceFrom (flat : Bool) (before : List Char) {f g : Fragment}
    (h : g.dialect = f.dialect) (taken : List (List Char × Arg)) :
    (f.append g).spliceFrom flat before taken = f.append (g.spliceFrom flat before taken) := by
  induction taken generalizing before g with
  | nil => rfl
  | cons t taken ih =>
    obtain ⟨p, a⟩ := t
    have dialect : (a.write (.after flat (before ++ p)) (g.write p)).dialect = f.dialect := by
      rw [a.dialect_write _ (fun e _ => e.dialect_write), dialect_write, h]
    have written := a.append_write (.after flat (before ++ p)) (fun e _ => e.write_append)
      (f := f) (g := g.write p) h
    rw [spliceFrom, append_write, written, ih _ dialect, spliceFrom]

/-- Pieces and arguments are written into a fragment as what they are in a blank one is appended. -/
theorem splice_eq_append (flat : Bool) (before : List Char) (f : Fragment)
    (ps : List (List Char)) (args : List Arg) :
    f.splice flat before ps args =
      f.append ((blank f.dialect).splice flat before ps args) := by
  have taken := append_spliceFrom flat before (dialect_blank f.dialect) (ps.dropLast.zip args)
  rw [append_blank] at taken
  simp only [splice]
  rw [taken, append_write, append_supplyAll, dialect_blank]

theorem dialect_splice (flat : Bool) (before : List Char) (f : Fragment) (ps : List (List Char))
    (args : List Arg) : (f.splice flat before ps args).dialect = f.dialect := by
  rw [splice_eq_append, dialect_append]

/-- Where an argument is written, the template is what is before it, the argument, and what is after
it. -/
theorem splice_append {flat : Bool} {before : List Char} {f : Fragment} {ps qs : List (List Char)}
    {xs ys : List Arg} {a : Arg} (hps : ps.length = xs.length + 1) (hqs : qs ≠ []) :
    f.splice flat before (ps ++ qs) (xs ++ a :: ys) =
      (a.write (.after flat (before ++ ps.flatten)) (f.splice flat before ps xs)).splice flat
        (before ++ ps.flatten) qs ys := by
  obtain ⟨q, qs, rfl⟩ := List.exists_cons_of_ne_nil hqs
  -- each argument before this one uses up the piece that it stands after
  induction xs generalizing ps before f with
  | nil =>
    obtain ⟨p, rfl⟩ := List.length_eq_one_iff.mp hps
    rw [List.nil_append, List.singleton_append, splice_cons_cons, splice_nil]
    simp
  | cons x xs ih =>
    obtain ⟨p, p', ps, rfl⟩ : ∃ p p' rest, ps = p :: p' :: rest := by
      rcases ps with _ | ⟨p, _ | ⟨p', ps⟩⟩
      · simp at hps
      · simp at hps
      · exact ⟨p, p', ps, rfl⟩
    rw [List.cons_append, List.cons_append, List.cons_append, splice_cons_cons, splice_cons_cons,
      ← List.cons_append, ih (by simpa using hps), List.append_assoc, ← List.flatten_cons]

end Fragment

/-! ## What is written for one argument -/

/-- What is written for an argument where brackets are added keeps its meaning next to any operator:
scalars are atomic, and an expression is a case, atomic, or in one pair of brackets. -/
def Arg.IsDelimited (d : Dialect) (h : Fragment) : Arg → Prop
  | .value _ | .list _ => h.isAtomic = true
  | .expr e =>
    e.isCase = true ∧ h = e.fragment d ∨ h.isAtomic = true ∨
      h = (Fragment.blank d).bracketed (e.fragment d)
  | .verbatim _ => False

theorem Fragment.isAtomic_bind (d : Dialect) (v : Value) : ((blank d).bind v).isAtomic = true := by
  have mark : ((blank d).bind v).canonical = ['?'] := chars_bind _ _ _
  have single : ((blank d).bind v).params.length = 1 := rfl
  rw [isAtomic, Atom.isAtomic, mark, single]
  simp

theorem Fragment.isAtomic_bindBracketed (d : Dialect) (vs : List Value) :
    ((blank d).bindBracketed vs).isAtomic = true := by
  cases h : vs.isEmpty with
  | true =>
    have null : ((blank d).bindBracketed vs).canonical = "(NULL)".toList := by
      rw [bindBracketed, h]
      exact canonical_write _ _
    have group : Atom.isGroup "(NULL)".toList = true := by decide
    rw [isAtomic, Atom.isAtomic, null, group]
    simp
  | false =>
    rw [bindBracketed_eq_bracketed _ h]
    exact isAtomic_bracketed d (balanced_bindAll (balanced_blank d) vs)

theorem Arg.isDelimited_write (d : Dialect) (b : Arg) :
    b.IsDelimited d (b.write .operand (.blank d)) ∨
      ∃ x, b = .verbatim x ∧ b.write .operand (.blank d) = x.fragment d := by
  cases b with
  | value v =>
    left
    simpa only [IsDelimited, write] using Fragment.isAtomic_bind d v
  | list vs =>
    left
    simpa only [IsDelimited, write] using Fragment.isAtomic_bindBracketed d vs
  | expr e =>
    left
    rw [write, Fragment.dialect_blank]
    split
    · rename_i hcase
      exact .inl ⟨hcase, rfl⟩
    · right
      rw [Fragment.appendOperand]
      split
      · rename_i atomic
        have same := Fragment.isAtomic_blank_append (e.fragment d)
        rw [e.dialect_fragment] at same
        exact .inl (same.trans atomic)
      · exact .inr rfl
  | verbatim x =>
    right
    refine ⟨x, rfl, ?_⟩
    simp only [write, Expr.fragment]

namespace Expr

/-- An expression among the arguments is written itself, unless it is alone and passes on its
argument. -/
theorem effective_of_getElem? {args : List Arg} {i : Nat} {e : Expr}
    (h : args[i]? = some (.expr e)) :
    ∃ b, (effective args)[i]? = some b ∧
      (b = .expr e ∨ args = [.expr e] ∧ passed? e = some [b]) := by
  rcases effective_cases args with same | ⟨b, flat, hargs, same⟩
  · rw [same]
    exact ⟨.expr e, h, .inl rfl⟩
  · obtain rfl : i = 0 := by
      have single : args.length = 1 := by rcases hargs with rfl | rfl <;> rfl
      have := (List.getElem?_eq_some_iff.mp h).1
      omega
    rcases hargs with rfl | rfl
    · obtain rfl : template "?" [b] flat = e := Arg.expr.inj (Option.some.inj h)
      exact ⟨b, by rw [same]; rfl, .inr ⟨rfl, rfl⟩⟩
    · cases h

end Expr

theorem length_splitOn (c : Char) (cs : List Char) : (cs.splitOn c).length = cs.count c + 1 := by
  induction cs with
  | nil => simp
  | cons d cs ih =>
    rw [List.splitOn_cons_eq_if_modifyHead, List.count_cons]
    split <;> simp [ih]

/-- A template is what is written before an argument that takes a mark, the argument, and what is
written after it. -/
theorem Expr.fragment_template_eq_append {text : String} {args : List Arg} {i : Nat} {b : Arg}
    {pieces : List (List Char)} (hpieces : text.toList.splitOn '?' = pieces) (flat : Bool) (d : Dialect)
    (hmark : i < text.toList.count '?') (hb : (effective args)[i]? = some b) :
    (template text args flat).fragment d =
      (((Fragment.blank d).splice flat [] (pieces.take (i + 1)) ((effective args).take i)).append
        (b.write (.after flat (pieces.take (i + 1)).flatten) (.blank d))).append
        ((Fragment.blank d).splice flat (pieces.take (i + 1)).flatten (pieces.drop (i + 1))
          ((effective args).drop (i + 1))) := by
  obtain ⟨hi, here⟩ := List.getElem?_eq_some_iff.mp hb
  have enough : i + 1 < pieces.length := by
    rw [← hpieces, length_splitOn]
    omega
  have cut : pieces.take (i + 1) ++ pieces.drop (i + 1) = pieces := List.take_append_drop _ _
  have among : (effective args).take i ++ b :: (effective args).drop (i + 1) = effective args := by
    rw [← here, ← List.drop_eq_getElem_cons hi, List.take_append_drop]
  have lengths : (pieces.take (i + 1)).length = ((effective args).take i).length + 1 := by
    rw [List.length_take, List.length_take]
    omega
  have rest : pieces.drop (i + 1) ≠ [] := by
    rw [Ne, List.drop_eq_nil_iff]
    omega
  let front := (Fragment.blank d).splice flat [] (pieces.take (i + 1)) ((effective args).take i)
  have dialect : front.dialect = d := Fragment.dialect_splice _ _ _ _ _
  calc (template text args flat).fragment d
      = (Fragment.blank d).splice flat [] pieces (effective args) :=
        hpieces ▸ write_template text args flat (.blank d)
    _ = (b.write (.after flat (pieces.take (i + 1)).flatten) front).splice flat
          (pieces.take (i + 1)).flatten (pieces.drop (i + 1)) ((effective args).drop (i + 1)) := by
        conv_lhs => rw [← cut, ← among, Fragment.splice_append lengths rest]
        rfl
    _ = _ := by
        rw [Arg.write_eq_append, Fragment.splice_eq_append, Fragment.dialect_append, dialect]

/-- Where a template adds brackets, what is written for an expression is a case, an atomic text, or one
pair of brackets around the expression. A lone argument that only passes on its own is written as that
is, and only if that is never put in brackets it is written as it is. -/
theorem operands_are_delimited {text : String} {args : List Arg} {i : Nat} {e : Expr} (d : Dialect)
    (hmark : i < text.toList.count '?') (harg : args[i]? = some (.expr e))
    (hopen : ((text.toList.splitOn '?').take (i + 1)).flatten.getLast? ≠ some '(') :
    let pieces := text.toList.splitOn '?'
    let passed := (pieces.take (i + 1)).flatten
    ∃ b, (Expr.effective args)[i]? = some b ∧
      (b = .expr e ∨ args = [.expr e] ∧ e.passed? = some [b]) ∧
      (Expr.template text args false).fragment d =
        (((Fragment.blank d).splice false [] (pieces.take (i + 1)) ((Expr.effective args).take i)).append
          (b.write .operand (.blank d))).append
          ((Fragment.blank d).splice false passed (pieces.drop (i + 1))
            ((Expr.effective args).drop (i + 1))) ∧
      (b.IsDelimited d (b.write .operand (.blank d)) ∨
        ∃ x, args = [.expr e] ∧ e.passed? = some [.verbatim x] ∧
          b.write .operand (.blank d) = x.fragment d) := by
  intro pieces passed
  obtain ⟨b, hb, origin⟩ := Expr.effective_of_getElem? harg
  have wraps : Mode.after false passed = .operand := by
    rw [Mode.after, decide_eq_false hopen]
    rfl
  have whole := Expr.fragment_template_eq_append rfl false d hmark hb
  rw [wraps] at whole
  refine ⟨b, hb, origin, whole, ?_⟩
  -- the argument that is written can be verbatim only where it is passed on
  rcases b.isDelimited_write d with h | ⟨x, rfl, hx⟩
  · exact .inl h
  · rcases origin with same | ⟨alone, passes⟩
    · cases same
    · exact .inr ⟨x, alone, passes, hx⟩

/-- A lone argument passes on an expression that needs brackets. -/
theorem operands_are_delimited_passed :
    let e : Expr := .template "?" [.expr (.text "a OR b")] false
    let pieces := "? AND c".toList.splitOn '?'
    0 < "? AND c".toList.count '?' ∧ [Arg.expr e][0]? = some (.expr e) ∧
      (pieces.take 1).flatten.getLast? ≠ some '(' ∧
      ∃ b, (Expr.effective [.expr e])[0]? = some b ∧
        b.IsDelimited .mysql (b.write .operand (.blank .mysql)) := by
  intro e pieces
  have mark : 0 < "? AND c".toList.count '?' := by decide +kernel
  have opened : (pieces.take 1).flatten.getLast? ≠ some '(' := by decide +kernel
  obtain ⟨b, hb, -, -, h⟩ :=
    @operands_are_delimited "? AND c" [.expr e] 0 e .mysql mark rfl opened
  refine ⟨mark, rfl, opened, b, hb, ?_⟩
  rcases h with h | ⟨x, -, passes, -⟩
  · exact h
  · cases passes

theorem Expr.canonical_fragment_of_isCase {c : Expr} (h : c.isCase = true) (d : Dialect) :
    ∃ rest, (c.fragment d).canonical = "CASE".toList ++ rest := by
  cases c with
  | caseWhen subject branches otherwise =>
    rw [fragment, write_of_isGroup_eq_false rfl, steps, List.foldl_cons,
      Step.foldl_write_eq_append, Fragment.canonical_append]
    exact ⟨_, rfl⟩
  | _ => cases h

/-- A disjunction that is never put in brackets loses its meaning when a lone argument passes it on:
what is written for the argument is no case, is not atomic, and has no brackets around it. -/
theorem verbatim_is_not_delimited :
    let x : Expr := .text "a OR b"
    let e : Expr := .template "?" [.verbatim x] false
    let h := (Arg.verbatim x).write .operand (.blank .mysql)
    Expr.effective [.expr e] = [.verbatim x] ∧
      ((Expr.template "? AND c" [.expr e] false).statement .mysql).sql = "a OR b AND c".toList ∧
      (Expr.template "? AND c" [.expr e] false).fragment .mysql = h.write " AND c".toList ∧
      h.isAtomic = false ∧
      (∀ c : Expr, c.isCase = true → h.canonical ≠ (c.fragment .mysql).canonical) ∧
      ∀ g, h ≠ (Fragment.blank .mysql).bracketed g := by
  intro x e h
  have written : h = ⟨.mysql, [.text "a OR b".toList], []⟩ :=
    show (Arg.verbatim (.text "a OR b")).write .operand (.blank .mysql) = _ by cbv
  have alone : Expr.effective [.expr e] = [.verbatim x] := rfl
  have whole : (Expr.template "? AND c" [.expr e] false).fragment .mysql =
      h.write " AND c".toList := by
    rw [written]
    cbv
  refine ⟨alone, ?_, whole, ?_, ?_, ?_⟩
  · rw [Expr.statement, whole, written]
    decide +kernel
  · rw [written]
    decide +kernel
  · intro c hc same
    obtain ⟨rest, hrest⟩ := Expr.canonical_fragment_of_isCase hc .mysql
    rw [hrest, written] at same
    have first := congrArg List.head? same
    simp [Fragment.canonical, Fragment.chars, Part.chars] at first
  · intro g same
    have text := congrArg Fragment.canonical same
    rw [Fragment.canonical_bracketed, written] at text
    have first := congrArg List.head? text
    simp [Fragment.canonical, Fragment.chars, Part.chars, Fragment.blank] at first

end SqlClause
