import SqlClause.Proofs.QuoteExchange
import SqlClause.Proofs.Recoding

/-! # The dialects write the same statement

Dialects with the same quotes write the same parts. A dialect with other quotes writes the same text
between these, if no spelling in the expression has one of the quotes in it. So the dialects agree on
which parts are void, which are atomic and which are loose. -/

namespace SqlClause

namespace Expr

/-- The expressions that are written when an expression is: itself, those among its steps, the
children of a group, and under a negation their negated forms. -/
inductive Writes : Expr → Expr → Prop
  | self (e : Expr) : Writes e e
  | step {e c w : Expr} {s : Step} {a : Arg} : s ∈ e.steps → s.arg? = some a → a.expr? = some c →
      Writes c w → Writes e w
  | and {es : List Expr} {c w : Expr} : c ∈ es → Writes c w → Writes (.and es) w
  | or {es : List Expr} {c w : Expr} : c ∈ es → Writes c w → Writes (.or es) w
  | not {es : List Expr} {c w : Expr} : c ∈ es → c.negation? = none → Writes c w →
      Writes (.not es) w
  | negation {es : List Expr} {c n w : Expr} : c ∈ es → c.negation? = some n → Writes n w →
      Writes (.not es) w

theorem Writes.areSpelledIn {P : Char → Prop} (significant : ∀ c, isSignificant c = true → P c)
    {e w : Expr} (h : e.Writes w) (he : AreSpelledIn P e.spellings) :
    AreSpelledIn P w.spellings := by
  induction h with
  | self => exact he
  | step hs ha hc _ ih => exact ih ((isSpelledIn_steps significant he _ hs).of_expr? ha hc)
  | and hc _ ih => exact ih (he.expr_of_mem hc)
  | or hc _ ih => exact ih (he.expr_of_mem hc)
  | not hc _ _ ih => exact ih (he.expr_of_mem hc)
  | negation hc hn _ ih => exact ih (by rw [spellings_of_negation? hn]; exact he.expr_of_mem hc)

/-- The dialects agree on whether the expression is left out of a group, whether it needs brackets as
an operand, and whether it needs them in a group. -/
structure DecidedAlike (d d' : Dialect) (e : Expr) : Prop where
  isVoid : (e.fragment d).isVoid = (e.fragment d').isVoid
  isAtomic : (e.fragment d).isAtomic = (e.fragment d').isAtomic
  loose : (e.write (.blank d)).loose = (e.write (.blank d')).loose

end Expr

theorem Recoding.Agrees.decidedAlike {r : Recoding} {e : Expr} (h : r.Agrees e)
    (same : r.value = id) : e.DecidedAlike r.source r.target := by
  have written := h.write_blank
  rw [same, Expr.mapValues_id] at written
  have fragment : e.fragment r.target = r.fragment (e.fragment r.source) :=
    congrArg Operand.fragment written
  exact
    { isVoid := by rw [fragment, isVoid_fragment]
      isAtomic := by rw [fragment, isAtomic_fragment (e.dialect_write _)]
      loose := (congrArg Operand.loose written).symm }

/-! ## Double quotes and backticks -/

/-- From double quotes to backticks, with `x` for the backticks that there are. -/
def Recoding.toBackticks (x : Char) (hx : isSignificant x = false) (hne : x ≠ '\x60') :
    Recoding where
  source := .postgres
  target := .mysql
  char := exchange x
  value := id
  value_eq_null_iff _ := Iff.rfl
  char_eq_self c hc := (keepsSignificant_exchange hx).apply_eq_self hc
  quoted cs plain := by
    have same : cs.map (exchange x) = cs := (List.map_congr_left plain).trans (List.map_id' cs)
    conv_lhs => rw [← same]
    exact Text.quoted_map (fun _ => exchange_eq_backtick_iff hne) cs
  isAtomic_map n cs :=
    Atom.isAtomic_map (keepsSignificant_exchange hx) (fun _ => exchange_eq_backtick_iff hne) n cs

namespace Expr

variable {e : Expr}

/-- No spelling in the expression has a double quote or a backtick in it. -/
def IsUnquoted (e : Expr) : Prop := ∀ s ∈ e.spellings, '"' ∉ s.toList ∧ '\x60' ∉ s.toList

theorem IsUnquoted.areSpelledIn (h : e.IsUnquoted) {x : Char} (hne : x ≠ '\x60') :
    AreSpelledIn (fun c => exchange x c = c) e.spellings := fun s hs _ hc =>
  (exchange_eq_self_iff hne).mpr
    ⟨fun hq => (h s hs).1 (hq ▸ hc), fun hq => (h s hs).2 (hq ▸ hc)⟩

theorem IsUnquoted.agrees (h : e.IsUnquoted) {x : Char} (hx : isSignificant x = false)
    (hne : x ≠ '\x60') : (Recoding.toBackticks x hx hne).Agrees e :=
  Recoding.agrees_of_areSpelledIn (h.areSpelledIn hne)

theorem IsUnquoted.canonical (h : e.IsUnquoted) {x : Char} (hx : isSignificant x = false)
    (hne : x ≠ '\x60') :
    (e.fragment .mysql).canonical = (e.fragment .postgres).canonical.map (exchange x) := by
  have written : (e.mapValues id).fragment .mysql = _ :=
    congrArg Operand.fragment (h.agrees hx hne).write_blank
  rw [mapValues_id] at written
  rw [written]
  exact Recoding.canonical_fragment (.toBackticks x hx hne) _

/-- There are no backticks between double quotes, for two characters in their place give the same
text between backticks. -/
theorem IsUnquoted.not_mem_canonical (h : e.IsUnquoted) :
    '\x60' ∉ (e.fragment .postgres).canonical := by
  have one := h.canonical (x := '"') (by decide) (by decide)
  have other := h.canonical (x := '#') (by decide) (by decide)
  exact not_mem_of_map_exchange (by decide) (one.symm.trans other)

theorem IsUnquoted.canonical_mysql (h : e.IsUnquoted) :
    (e.fragment .mysql).canonical =
      (e.fragment .postgres).canonical.map fun c => if c = '"' then '\x60' else c := by
  rw [h.canonical (x := '#') (by decide) (by decide)]
  refine List.map_congr_left fun c hc => ?_
  have unquoted : c ≠ '\x60' := fun hq => h.not_mem_canonical (hq ▸ hc)
  simp [exchange, unquoted]

end Expr

theorem Expr.fragment_sqlite (e : Expr) :
    e.fragment .sqlite = ⟨.sqlite, (e.fragment .postgres).parts, (e.fragment .postgres).params⟩ := by
  have same : (e.mapValues id).fragment .sqlite = _ :=
    Recoding.fragment_mapValues .postgres .sqlite rfl rfl (fun _ => Iff.rfl) e
  rwa [Expr.mapValues_id, List.map_id'] at same

/-- Postgres and SQLite write the same text around the parameters, and Postgres numbers these from one
on. If no template and no name has a quote in it, MySQL writes the same with backticks for double
quotes. In both cases the dialects agree on all that they decide about the expressions that are
written. -/
theorem dialects_write_alike (e : Expr) :
    ((e.fragment .postgres).canonical = (e.fragment .sqlite).canonical ∧
        (e.statement .postgres).sql =
          (e.fragment .sqlite).chars (fun index => '$' :: Nat.toDigits 10 (index + 1)) ∧
        ∀ w, e.Writes w → w.DecidedAlike .postgres .sqlite) ∧
      (e.IsUnquoted →
        (e.fragment .mysql).canonical =
            (e.fragment .postgres).canonical.map (fun c => if c = '"' then '\x60' else c) ∧
          ∀ w, e.Writes w → w.DecidedAlike .postgres .mysql) := by
  refine ⟨⟨?_, ?_, fun w _ => ?_⟩, fun h => ⟨h.canonical_mysql, fun w hw => ?_⟩⟩
  · rw [e.fragment_sqlite]
    rfl
  · rw [e.fragment_sqlite, Expr.statement, Fragment.sql_finish, Fragment.sql,
      show (e.fragment .postgres).dialect = .postgres from e.dialect_write _]
    rfl
  · exact (Recoding.agrees_ofSameQuotes .postgres .sqlite rfl rfl (fun _ => Iff.rfl) w).decidedAlike
      rfl
  · have plain := h.areSpelledIn (x := '#') (by decide)
    have kept (c : Char) (hc : isSignificant c = true) : exchange '#' c = c :=
      (keepsSignificant_exchange (by decide)).apply_eq_self hc
    exact (Recoding.agrees_of_areSpelledIn (r := .toBackticks '#' (by decide) (by decide))
      (hw.areSpelledIn kept plain)).decidedAlike rfl

/-- A negated disjunction, one part of which is a negated template that needs brackets. -/
theorem dialects_write_alike_nested :
    let part : Expr := .template "? OR b" [.expr (.column (.named "c"))] false
    let e : Expr := .not [.or [.comparison .gt (.column (.named "a")) (.value (.int 1)),
      .not [part]]]
    e.IsUnquoted ∧ e.Writes part ∧ part.DecidedAlike .postgres .mysql ∧
      (e.fragment .mysql).canonical = "(\x60a\x60 <= ? AND (\x60c\x60 OR b))".toList := by
  intro part e
  have unquoted : e.IsUnquoted := by
    unfold Expr.IsUnquoted
    decide +kernel
  have reached : e.Writes part :=
    .negation List.mem_cons_self rfl
      (.and (List.mem_cons_of_mem _ List.mem_cons_self) (.and List.mem_cons_self (.self part)))
  have text : (e.fragment .postgres).canonical = "(\"a\" <= ? AND (\"c\" OR b))".toList := by cbv
  obtain ⟨same, decided⟩ := (dialects_write_alike e).2 unquoted
  refine ⟨unquoted, reached, decided part reached, ?_⟩
  rw [same, text]
  decide +kernel

end SqlClause
