import SqlClause.Proofs.ColumnText
import SqlClause.Proofs.Lexemes

/-! # Quoted names are read back

A quote that is not doubled ends a quotation, so what follows one is known from the text alone, unless
it starts with a quote itself. The names of a column stand in quotes with a point or a word between
them, so the column can be read off its text whatever is in its names. -/

namespace SqlClause

namespace Sql

/-- The text in quotes at the start of a text, and what comes after it. -/
def unquote? (q : Char) : List Char → Option (List Char × List Char)
  | [] => none
  | c :: cs => if c = q then quotation? q cs else none

variable {q : Char} {x rest : List Char}

theorem unquote?_quoted (x : List Char) (h : rest.head? ≠ some q) :
    unquote? q (Text.quoted q x ++ rest) = some (x, rest) := by
  have body : Text.doubled q x ++ [q] ++ rest = Text.doubled q x ++ q :: rest := by simp
  rw [Text.quoted, List.cons_append, unquote?, if_pos rfl, body, quotation?_doubled x h]

/-- What is read as a quotation has been written as one. -/
theorem unquote?_eq_some_iff {cs : List Char} :
    unquote? q cs = some (x, rest) ↔ cs = Text.quoted q x ++ rest ∧ rest.head? ≠ some q := by
  constructor
  · intro h
    cases cs with
    | nil => cases h
    | cons c cs =>
      rw [unquote?] at h
      split at h
      · rename_i hc
        obtain ⟨hcs, hrest⟩ := quotation?_spec h
        refine ⟨?_, hrest⟩
        rw [hcs, hc, Text.quoted]
        simp
      · cases h
  · rintro ⟨rfl, h⟩
    exact unquote?_quoted x h

end Sql

open Sql (unquote? unquote?_quoted unquote?_eq_some_iff)

namespace Column

/-- The names of the column are in quotes. -/
structure IsQuoted (c : Column) : Prop where
  raw : c.raw = false
  name : c.name ≠ "*"

def labelText (q : Char) : Option String → List Char
  | some label => " AS ".toList ++ Text.quoted q label.toList
  | none => []

/-- The quoted names of a column. -/
def phrase (q : Char) (c : Column) : List Char := c.text q ++ labelText q c.label

/-- The output name that a text has at its end, if it has one. -/
def labelOf? (q : Char) : List Char → Option (Option String)
  | [] => some none
  | ' ' :: 'A' :: 'S' :: ' ' :: cs =>
    match unquote? q cs with
    | some (label, []) => some (some (String.ofList label))
    | _ => none
  | _ => none

/-- The column with a text as its phrase. -/
def ofPhrase? (q : Char) (cs : List Char) : Option Column := do
  let (first, rest) ← unquote? q cs
  match rest with
  | '.' :: rest =>
    let (name, rest) ← unquote? q rest
    let label ← labelOf? q rest
    return { table := some (String.ofList first), name := String.ofList name, label }
  | rest =>
    let label ← labelOf? q rest
    return { name := String.ofList first, label }

variable {q : Char} {c : Column}

theorem head?_labelText_ne (hq : q ≠ ' ') (label : Option String) :
    (labelText q label).head? ≠ some q := by
  cases label with
  | none => nofun
  | some label => simpa [labelText] using hq.symm

theorem labelOf?_labelText (label : Option String) :
    labelOf? q (labelText q label) = some label := by
  cases label with
  | none => rfl
  | some label =>
    have read : unquote? q (Text.quoted q label.toList) = some (label.toList, []) :=
      unquote?_eq_some_iff.mpr ⟨(List.append_nil _).symm, nofun⟩
    have lead : " AS ".toList ++ Text.quoted q label.toList =
        ' ' :: 'A' :: 'S' :: ' ' :: Text.quoted q label.toList := rfl
    rw [labelText, lead, labelOf?, read]
    simp only [String.ofList_toList]

/-- A column is read off its phrase. -/
theorem ofPhrase?_phrase (hq : q ≠ ' ' ∧ q ≠ '.') (h : c.raw = false) :
    ofPhrase? q (c.phrase q) = some c := by
  obtain ⟨table, name, label, raw⟩ := c
  obtain rfl : raw = false := h
  have apart := head?_labelText_ne hq.1 label
  cases table with
  | none =>
    have read : unquote? q (phrase q { name, label }) = some (name.toList, labelText q label) :=
      unquote?_quoted name.toList apart
    rw [ofPhrase?, read]
    simp only [Option.bind_eq_bind, Option.bind_some]
    split
    case h_1 cs hcs =>
      have : labelText q label ≠ '.' :: cs := by cases label <;> simp [labelText]
      exact absurd hcs this
    case h_2 =>
      rw [labelOf?_labelText, String.ofList_toList]
      rfl
  | some table =>
    have first : unquote? q (phrase q { table := some table, name, label }) =
        some (table.toList, '.' :: (Text.quoted q name.toList ++ labelText q label)) :=
      unquote?_eq_some_iff.mpr ⟨by simp [phrase, text], by simp [hq.2.symm]⟩
    rw [ofPhrase?, first]
    simp only [Option.bind_eq_bind, Option.bind_some]
    rw [unquote?_quoted name.toList apart, Option.bind_some, labelOf?_labelText,
      String.ofList_toList, String.ofList_toList]
    rfl

end Column

namespace Expr

variable {d : Dialect} {c : Column}

theorem chars_fragment_column_of_isQuoted (hd : Sql.IsLegible d) (h : c.IsQuoted)
    (mark : Nat → List Char) : ((column c).fragment d).chars mark = c.phrase d.quote := by
  have blank : (Fragment.blank d).chars mark = [] := rfl
  obtain ⟨table, name, label, raw⟩ := c
  obtain rfl : raw = false := h.raw
  have named : name ≠ "*" := h.name
  rw [fragment_column, Fragment.writeColumn]
  cases table <;> cases label <;>
    simp [Fragment.writeName, Column.phrase, Column.text, Column.labelText, named, hd.quoted, blank]

theorem sql_statement_column (hd : Sql.IsLegible d) (h : c.IsQuoted) :
    ((column c).statement d).sql = c.phrase d.quote := by
  rw [statement, Fragment.sql_finish, Fragment.sql, chars_fragment_column_of_isQuoted hd h]

end Expr

/-- What is read in quotes is what has been written in them, for each character that serves as a
quote and for text literals; nothing is read beyond them. So in each dialect two columns with quoted
names that differ in a table, a name or an output name are written differently. -/
theorem quotations_are_read_back :
    (∀ (name : String) (quote : Char) (placeholder : Nat → List Char) (x rest cs : List Char),
        let d : Dialect := { name, quote, placeholder }
        unquote? d.quote cs = some (x, rest) ↔
          cs = d.quoted x ++ rest ∧ rest.head? ≠ some d.quote) ∧
      (∀ (s : String) (rest cs : List Char),
        unquote? '\'' cs = some (s.toList, rest) ↔
          cs = (Value.text s).literal ++ rest ∧ rest.head? ≠ some '\'') ∧
      ∀ d ∈ [Dialect.mysql, .postgres, .sqlite], ∀ c c' : Column, c.IsQuoted → c'.IsQuoted → c ≠ c' →
        ((Expr.column c).statement d).sql ≠ ((Expr.column c').statement d).sql := by
  refine ⟨fun name quote placeholder x rest cs => unquote?_eq_some_iff,
    fun s rest cs => unquote?_eq_some_iff, fun d hd c c' hc hc' differ same => differ ?_⟩
  have legible := Sql.isLegible_of_mem hd
  have apart : d.quote ≠ ' ' ∧ d.quote ≠ '.' := by
    rcases legible.quote with h | h <;> rw [h] <;> decide
  rw [Expr.sql_statement_column legible hc, Expr.sql_statement_column legible hc'] at same
  have read := congrArg (Column.ofPhrase? d.quote) same
  rwa [Column.ofPhrase?_phrase apart hc.raw, Column.ofPhrase?_phrase apart hc'.raw,
    Option.some.injEq] at read

/-- A name with all that stands between the names of a column in it is not taken for that column. -/
theorem quotations_are_read_back_imitation :
    let c : Column := { name := "t\x60.\x60a\x60 AS \x60b" }
    let c' : Column := { table := some "t", name := "a", label := some "b" }
    c.IsQuoted ∧ c'.IsQuoted ∧ c ≠ c' ∧
      ((Expr.column c).statement .mysql).sql ≠ ((Expr.column c').statement .mysql).sql := by
  intro c c'
  have quoted : c.IsQuoted := ⟨rfl, by decide⟩
  have quoted' : c'.IsQuoted := ⟨rfl, by decide⟩
  have differ : c ≠ c' := by decide
  exact ⟨quoted, quoted', differ,
    quotations_are_read_back.2.2 .mysql List.mem_cons_self c c' quoted quoted' differ⟩

end SqlClause
