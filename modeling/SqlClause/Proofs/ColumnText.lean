import SqlClause.Proofs.ColumnReading
import SqlClause.Proofs.SqlTokens
import SqlClause.Proofs.WritingLocality

/-! # The text of columns read from names

The parts of such a column are words. Quoted they are one operand, which is read as the column. -/

namespace SqlClause

namespace Column

/-- The characters of words and no others, in any order. -/
def IsWord (s : String) : Prop := s ≠ "" ∧ ∀ c ∈ s.toList, IsInner c

instance : DecidablePred IsWord := fun s =>
  -- over the text, not over all characters
  have : Decidable (∀ c ∈ s.toList, IsInner c) := List.decidableBAll _ _
  inferInstanceAs (Decidable (s ≠ "" ∧ ∀ c ∈ s.toList, IsInner c))

/-- The words are what is taken for a word between quotes. -/
theorem isWord_iff {s : String} :
    IsWord s ↔ s.toList ≠ [] ∧ s.toList.all Atom.isWordCharacter = true := by
  have inner (c : Char) : IsInner c ↔ Atom.isWordCharacter c = true := by
    rw [← continuesWord_iff]
    simp [continuesWord, Atom.isWordCharacter, or_assoc]
  simp only [IsWord, inner, ne_eq, String.toList_eq_nil_iff, List.all_eq_true]

/-- A column of words without an output name. -/
structure IsPlain (c : Column) : Prop where
  raw : c.raw = false
  label : c.label = none
  name : IsWord c.name
  table : ∀ t, c.table = some t → IsWord t

theorem isWord_of_isSegment {cs : List Char} (h : IsSegment cs) : IsWord (String.ofList cs) := by
  rw [IsWord, ne_eq, ← String.toList_eq_nil_iff, String.toList_ofList]
  exact ⟨h.ne_nil, h.isInner⟩

/-- A column read from a name is a star or has words for its parts. -/
theorem isPlain_of_read {path : String} {c : Column} (h : read path = .ok c)
    (hstar : c.name ≠ "*") : c.IsPlain := by
  have names := read_eq_ok_iff_names.mp h
  generalize path.toList = cs at names
  rcases names with (_ | hname) | ⟨htable, _ | hname⟩
  · exact absurd rfl hstar
  · exact ⟨rfl, rfl, isWord_of_isSegment hname, nofun⟩
  · exact absurd rfl hstar
  · have table := isWord_of_isSegment htable
    exact ⟨rfl, rfl, isWord_of_isSegment hname, fun t ht => Option.some.inj ht ▸ table⟩

/-- The quoted parts of a column with a point between them. -/
def text (quote : Char) (c : Column) : List Char :=
  match c.table with
  | some table => Text.quoted quote table.toList ++ '.' :: Text.quoted quote c.name.toList
  | none => Text.quoted quote c.name.toList

def tokens (c : Column) : List Sql.Token :=
  match c.table with
  | some table => [.name table.toList, .point, .name c.name.toList]
  | none => [.name c.name.toList]

variable {quote : Char} {c : Column}

theorem IsPlain.name_ne_star (h : c.IsPlain) : c.name ≠ "*" := by
  intro hstar
  have := h.name.2 '*' (by rw [hstar]; decide)
  revert this
  decide

theorem IsWord.quote_not_mem {s : String} (h : IsWord s) (hq : quote = '\x60' ∨ quote = '"') :
    quote ∉ s.toList := by
  intro hmem
  have := h.2 quote hmem
  rcases hq with rfl | rfl <;> revert this <;> decide

theorem afterQuotedWord?_quoted {s : String} (h : IsWord s) (hq : quote = '\x60' ∨ quote = '"')
    (rest : List Char) :
    Atom.afterQuotedWord? quote (Text.quoted quote s.toList ++ rest) = some rest := by
  have others : ∀ c ∈ s.toList, c ≠ quote := fun c hc hcq => h.quote_not_mem hq (hcq ▸ hc)
  have taken : (s.toList ++ quote :: rest).takeWhile (· ≠ quote) = s.toList := by
    rw [List.takeWhile_append_of_pos (by simpa using others)]
    simp
  have dropped : (s.toList ++ quote :: rest).dropWhile (· ≠ quote) = quote :: rest := by
    rw [List.dropWhile_append_of_pos (by simpa using others)]
    simp
  rw [Text.quoted, Text.doubled_of_not_mem (h.quote_not_mem hq), List.cons_append,
    List.append_assoc, List.singleton_append, Atom.afterQuotedWord?]
  simp only [taken, dropped]
  exact if_pos ⟨trivial, isWord_iff.mp h⟩

theorem isReference_text (h : c.IsPlain) (hq : quote = '\x60' ∨ quote = '"') :
    Atom.isReference quote (c.text quote) = true := by
  have name := afterQuotedWord?_quoted h.name hq []
  rw [List.append_nil] at name
  cases ht : c.table with
  | none => rw [text, ht, Atom.isReference, name]
  | some table =>
    rw [text, ht, Atom.isReference, afterQuotedWord?_quoted (h.table table ht) hq]
    simp only
    rw [name, decide_eq_true_eq]

theorem lex_text (hq : quote = '\x60' ∨ quote = '"') {rank : Nat} {rest : List Char}
    (h : Sql.Apart rest) :
    Sql.lex quote rank .nothing (c.text quote ++ rest) =
      c.tokens ++ Sql.lex quote rank .nothing rest := by
  cases ht : c.table with
  | none =>
    rw [text, tokens, ht]
    exact Sql.lex_quoted hq c.name.toList h
  | some table =>
    rw [text, tokens, ht]
    simp only
    rw [List.append_assoc, List.cons_append,
      Sql.lex_quoted hq table.toList (Sql.apart_cons (by decide) _), Sql.lex_punctuation hq rfl,
      Sql.lex_quoted hq c.name.toList h]
    rfl

end Column

namespace Expr

variable {d : Dialect} {c : Column}

theorem fragment_column (c : Column) (d : Dialect) :
    (column c).fragment d = (Fragment.blank d).writeColumn c := by
  rw [fragment, write_of_isGroup_eq_false rfl]
  rfl

theorem chars_fragment_column (hd : Sql.IsLegible d) (h : c.IsPlain)
    (mark : Nat → List Char) : ((column c).fragment d).chars mark = c.text d.quote := by
  have blank : (Fragment.blank d).chars mark = [] := rfl
  rw [fragment_column, Fragment.writeColumn, h.label]
  cases ht : c.table with
  | none => simp [Fragment.writeName, Column.text, ht, h.raw, h.name_ne_star, hd.quoted, blank]
  | some table =>
    simp [Fragment.writeName, Column.text, ht, h.raw, h.name_ne_star, hd.quoted, blank]

theorem isAtomic_fragment_column (hd : Sql.IsLegible d) (h : c.IsPlain) :
    ((column c).fragment d).isAtomic = true := by
  have reference := Column.isReference_text h hd.quote
  rw [Fragment.isAtomic, Fragment.canonical, chars_fragment_column hd h, dialect_fragment,
    Atom.isAtomic, reference]
  simp

end Expr

end SqlClause
