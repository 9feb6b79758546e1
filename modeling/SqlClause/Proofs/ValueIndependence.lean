import SqlClause.Proofs.Recoding

/-! # The text of a statement does not depend on its values

Whether a part is void, atomic or loose is decided on texts, on numbers of parameters and on which
scalars are null. A replacement of scalars that keeps exactly the null ones null goes through all of
these decisions, so it changes the values of a statement and nothing else. -/

namespace SqlClause

/-- All that is left of a scalar when its content is forgotten. -/
def Value.outline (v : Value) : Value := if v.isNull then .null else .bool true

/-- The shape of an expression, with its null scalars and the lengths of its lists. -/
def Expr.outline (e : Expr) : Expr := e.mapValues Value.outline

theorem Value.outline_eq_null_iff (v : Value) : v.outline = .null ↔ v = .null := by
  unfold outline
  split <;> simp_all

theorem Expr.statement_of_mapValues {φ : Value → Value} (hφ : ∀ v, φ v = .null ↔ v = .null)
    (e : Expr) (d : Dialect) :
    (e.mapValues φ).statement d =
      { e.statement d with params := (e.statement d).params.map φ } := by
  have same : (e.fragment d).dialect = d := e.dialect_write (.blank d)
  rw [statement, statement, Recoding.fragment_mapValues d d rfl rfl hφ, Fragment.finish, Fragment.finish,
    same]

/-- The text and the slots of a statement depend on the outline of the expression only. -/
theorem Expr.sql_and_slots_of_outline {e e' : Expr} (h : e'.outline = e.outline) (d : Dialect) :
    (e'.statement d).sql = (e.statement d).sql ∧ (e'.statement d).slots = (e.statement d).slots := by
  have outlined (c : Expr) := Expr.statement_of_mapValues Value.outline_eq_null_iff c d
  have same : (e'.outline).statement d = (e.outline).statement d := by rw [h]
  rw [outline, outline, outlined e, outlined e'] at same
  have hsql := congrArg Statement.sql same
  have hslots := congrArg Statement.slots same
  exact ⟨hsql, hslots⟩

/-- A replacement of scalars that neither makes nor loses a null changes the values of a statement
and neither its text nor its slots; these depend on the outline of the expression only. -/
theorem statement_mapValues (d : Dialect) (e : Expr) {φ : Value → Value}
    (hφ : ∀ v, φ v = .null ↔ v = .null) :
    (e.mapValues φ).statement d =
        { e.statement d with params := (e.statement d).params.map φ } ∧
      ∀ e' : Expr, e'.outline = e.outline →
        (e'.statement d).sql = (e.statement d).sql ∧
          (e'.statement d).slots = (e.statement d).slots := by
  exact ⟨Expr.statement_of_mapValues hφ e d, fun e' h => Expr.sql_and_slots_of_outline h d⟩

/-- Two numbers under the same conditions give the same text. -/
theorem statement_mapValues_same_conditions :
    let condition (m n : Int64) : Expr :=
      .and [.comparison .ne (.column (.named "a")) (.value (.int m)),
        .not [.membership (.column (.named "b")) [.list [.int n, .null]] false]]
    (∀ v : Value, v.outline = .null ↔ v = .null) ∧
      (condition 5 6).outline = (condition 7 8).outline ∧
      ((condition 7 8).mapValues Value.outline).statement .postgres =
        { (condition 7 8).statement .postgres with
          params := ((condition 7 8).statement .postgres).params.map Value.outline } ∧
      ((condition 5 6).statement .postgres).sql = ((condition 7 8).statement .postgres).sql := by
  intro condition
  have same : (condition 5 6).outline = (condition 7 8).outline := rfl
  obtain ⟨mapped, outlined⟩ :=
    statement_mapValues .postgres (condition 7 8) Value.outline_eq_null_iff
  exact ⟨Value.outline_eq_null_iff, same, mapped, (outlined _ same).1⟩

end SqlClause
