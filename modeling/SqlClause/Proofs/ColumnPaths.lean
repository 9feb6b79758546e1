import SqlClause.Proofs.AtomicColumns
import SqlClause.Proofs.SignedWriting

/-! # The text of a column is its path

The column that a path names has the parts of the path, so that its text is the path with quotes, and
it is atomic. -/

namespace SqlClause

namespace Column

/-- The text of a column that a path names: its parts are quoted but for a star. -/
def pathText (q : Char) (c : Column) : List Char :=
  (match c.table with
    | some table => Text.quoted q table.toList ++ ['.']
    | none => []) ++
  if c.name = "*" then ['*'] else Text.quoted q c.name.toList

theorem filter_quoted {q : Char} {cs : List Char} (h : q ∉ cs) :
    (Text.quoted q cs).filter (· ≠ q) = cs := by
  have kept : cs.filter (· ≠ q) = cs :=
    List.filter_eq_self.mpr fun c hc => decide_eq_true fun hcq => h (hcq ▸ hc)
  rw [Text.quoted, Text.doubled_of_not_mem h, List.filter_cons_of_neg (by simp),
    List.filter_append, kept]
  simp

theorem filter_pathText {q : Char} {c : Column} (hpoint : q ≠ '.') (h : q ∉ c.path) :
    (c.pathText q).filter (· ≠ q) = c.path := by
  have name (hn : q ∉ c.name.toList) :
      (if c.name = "*" then ['*'] else Text.quoted q c.name.toList).filter (· ≠ q) =
        c.name.toList := by
    split
    · rename_i hstar
      rw [hstar] at hn ⊢
      exact List.filter_eq_self.mpr fun d hd => decide_eq_true fun hdq => hn (hdq ▸ hd)
    · exact filter_quoted hn
  rw [path] at h ⊢
  rw [pathText, List.filter_append]
  cases ht : c.table with
  | none =>
    simp only [ht] at h
    rw [name h]
    rfl
  | some table =>
    simp only [ht, List.mem_append, List.mem_cons, not_or] at h
    have point : ['.'].filter (· ≠ q) = ['.'] := by simp [hpoint.symm]
    rw [List.filter_append, filter_quoted h.1, name h.2.2, point]
    simp

end Column

namespace Expr

open Column (Names)

variable {d : Dialect} {cs : List Char} {c : Column}

theorem chars_fragment_column_of_names (hd : Sql.IsLegible d) (h : Names cs c)
    (mark : Nat → List Char) : ((column c).fragment d).chars mark = c.pathText d.quote := by
  have blank : (Fragment.blank d).chars mark = [] := rfl
  have bare : (c.raw = true ∨ c.name = "*") ↔ c.name = "*" := by rw [h.raw_iff, or_self]
  rw [fragment_column, Fragment.writeColumn, Column.pathText]
  simp only [bare, h.label]
  cases c.table <;> split <;> simp_all [Fragment.writeName, hd.quoted]

theorem isAtomic_fragment_column_of_read {s : String} (hd : Sql.IsLegible d)
    (h : Column.read s = .ok c) : ((column c).fragment d).isAtomic = true := by
  by_cases hstar : c.name = "*"
  · have names := Column.read_eq_ok_iff_names.mp h
    have written := chars_fragment_column_of_names hd names fun _ => ['?']
    have starred : Atom.isStar (c.pathText d.quote) = true := by
      rw [Column.pathText, if_pos hstar]
      cases c.table with
      | none => rfl
      | some table =>
        have ends : ['.', '*'] <:+ Text.quoted d.quote table.toList ++ ['.'] ++ ['*'] :=
          ⟨_, (List.append_assoc _ ['.'] ['*']).symm⟩
        rw [Atom.isStar, Bool.or_eq_true, List.isSuffixOf_iff_suffix]
        exact .inr ends
    rw [Fragment.isAtomic, Fragment.canonical, written, dialect_fragment, Atom.isAtomic, starred]
    simp
  · exact isAtomic_fragment_column hd (Column.isPlain_of_read h hstar)

/-- Nothing puts an atomic expression in brackets. -/
theorem write_expr_of_isAtomic {e : Expr} {f : Fragment} {mode : Mode}
    (h : (e.fragment f.dialect).isAtomic = true) (hmode : mode ≠ .surplus) :
    (Arg.expr e).write mode f = f.append (e.fragment f.dialect) := by
  rw [Arg.write_expr]
  cases mode with
  | plain => rfl
  | flat => rfl
  | operand => simp [Fragment.embed, Fragment.appendOperand, h]
  | surplus => exact absurd rfl hmode

end Expr

open Column (IsPath)

/-- Reading accepts the paths and refuses all else as invalid. The column that it gives has no output
name, is raw only as a star, and has the parts of the path. In each dialect it is atomic, so that it
is nowhere put in brackets, and its text without the quotes is the path. -/
theorem read_accepts_paths (s : String) :
    ((∃ c, Column.read s = .ok c) ↔ IsPath s.toList) ∧
      (¬IsPath s.toList → ∃ fault, Column.read s = .error (.invalidIdentifier s fault)) ∧
      ∀ c, Column.read s = .ok c →
        c.label = none ∧ (c.raw = true ↔ c.name = "*") ∧ c.path = s.toList ∧
          ∀ d ∈ [Dialect.mysql, .postgres, .sqlite],
            let e := Expr.column c
            (e.fragment d).isAtomic = true ∧ (e.write (.blank d)).loose = false ∧
              (∀ mode f, mode ≠ .surplus → f.dialect = d →
                (Arg.expr e).write mode f = f.append (e.fragment d)) ∧
              (e.statement d).sql.filter (· ≠ d.quote) = s.toList := by
  have accepted : (∃ c, Column.read s = .ok c) ↔ IsPath s.toList := by
    simp only [Column.isPath_iff_exists_names, Column.read_eq_ok_iff_names]
  refine ⟨accepted, fun h => (Column.read_eq_ok_or_invalid s).resolve_left (mt accepted.mp h),
    fun c hread => ?_⟩
  have names := Column.read_eq_ok_iff_names.mp hread
  refine ⟨names.label, names.raw_iff, names.path, fun d hd => ?_⟩
  have legible := Sql.isLegible_of_mem hd
  have atomic := Expr.isAtomic_fragment_column_of_read legible hread
  refine ⟨atomic, ?_, ?_, ?_⟩
  · rw [Expr.write_of_isGroup_eq_false rfl]
    rfl
  · rintro mode f hmode rfl
    exact Expr.write_expr_of_isAtomic atomic hmode
  · have plain : ¬Column.IsInner d.quote ∧ d.quote ≠ '*' ∧ d.quote ≠ '.' := by
      rcases legible.quote with h | h <;> rw [h] <;> decide
    have absent : d.quote ∉ c.path := names.path ▸ names.not_mem plain.1 plain.2.1 plain.2.2
    rw [Expr.statement, Fragment.sql_finish, Fragment.sql,
      Expr.chars_fragment_column_of_names legible names, Column.filter_pathText plain.2.2 absent,
      names.path]

/-- A table and a star are a path, and a star and a name are none. -/
theorem read_accepts_paths_starred :
    (∃ c, Column.read "users.*" = .ok c ∧
      ((Expr.column c).statement .postgres).sql.filter (· ≠ '"') = "users.*".toList) ∧
      ∃ fault, Column.read "*.id" = .error (.invalidIdentifier "*.id" fault) := by
  have table : Column.IsSegment "users".toList := by decide
  have path : IsPath "users.*".toList := .starIn table
  obtain ⟨c, hread⟩ := (read_accepts_paths "users.*").1.mpr path
  have written := ((read_accepts_paths "users.*").2.2 c hread).2.2.2 .postgres (by simp)
  have other : ¬IsPath "*.id".toList := fun h => absurd (h.eq_star (by decide)) (by decide)
  exact ⟨⟨c, hread, written.2.2.2⟩, (read_accepts_paths "*.id").2.1 other⟩

end SqlClause
