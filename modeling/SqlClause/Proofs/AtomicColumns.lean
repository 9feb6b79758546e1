import SqlClause.Proofs.AtomicTexts
import SqlClause.Proofs.QuotedNames

/-! # Columns that are atomic

What is taken for a word in quotes is a quotation, and a quotation is read in one way only. So a name
with a quote or a point in it does not pass for two words, nor for the start of one. No other shape of
an atomic text starts and ends with the quote of names. -/

namespace SqlClause

open Column (IsWord)

namespace Atom

variable {q : Char}

/-- What is taken for a word in quotes is a quotation, so it is the one that has been written. -/
theorem isWord_of_afterQuotedWord? {s : String} {rest after : List Char}
    (h : afterQuotedWord? q (Text.quoted q s.toList ++ rest) = some after)
    (hrest : rest.head? ≠ some q) (hafter : after.head? ≠ some q) :
    IsWord s ∧ after = rest := by
  obtain ⟨word, hword, full, inner⟩ := Sql.quoted_of_afterQuotedWord? h
  have read := Sql.unquote?_quoted s.toList hrest
  rw [hword, Sql.unquote?_quoted word hafter, Option.some.injEq, Prod.mk.injEq] at read
  obtain ⟨rfl, rfl⟩ := read
  exact ⟨Column.isWord_iff.mpr ⟨full, inner⟩, rfl⟩

theorem isReference_iff {cs : List Char} :
    isReference q cs = true ↔ afterQuotedWord? q cs = some [] ∨
      ∃ rest, afterQuotedWord? q cs = some ('.' :: rest) ∧ afterQuotedWord? q rest = some [] := by
  rw [isReference]
  split
  case h_1 h => simp [h]
  case h_2 h => simp [h]
  case h_3 rest h => simp [h]
  case h_4 rest hnil hpoint h =>
    refine iff_of_false Bool.false_ne_true ?_
    rintro (hw | ⟨rest', hw, -⟩)
    · exact hnil (Option.some.inj (h.symm.trans hw))
    · exact hpoint rest' (Option.some.inj (h.symm.trans hw))

/-- A text between quotes of names has none of the other shapes. -/
structure IsEnclosed (q : Char) (cs : List Char) : Prop where
  head : cs.head? = some q
  last : cs.getLast? = some q

namespace IsEnclosed

variable {cs : List Char}

theorem eq_cons (h : IsEnclosed q cs) : ∃ rest, cs = q :: rest := by
  cases cs with
  | nil => cases h.head
  | cons c rest => exact ⟨rest, by rw [Option.some.inj h.head]⟩

theorem ne_nil (h : IsEnclosed q cs) : cs ≠ [] := by
  rintro rfl
  cases h.head

theorem ne_mark (h : IsEnclosed q cs) (hq : q = '\x60' ∨ q = '"') : cs ≠ ['?'] := by
  rintro rfl
  rcases hq with rfl | rfl <;> cases h.head

theorem isCall_eq_false (h : IsEnclosed q cs) (hq : q = '\x60' ∨ q = '"') : isCall cs = false := by
  obtain ⟨rest, rfl⟩ := h.eq_cons
  rcases hq with rfl | rfl <;> simp [isCall]

theorem isGroup_eq_false (h : IsEnclosed q cs) (hq : q = '\x60' ∨ q = '"') : isGroup cs = false := by
  obtain ⟨rest, rfl⟩ := h.eq_cons
  rcases hq with rfl | rfl <;> rfl

theorem isKeyword_eq_false (h : IsEnclosed q cs) (hq : q = '\x60' ∨ q = '"') :
    isKeyword cs = false := by
  have leads : ∀ k ∈ keywords, k.toList.head? ≠ some '\x60' ∧ k.toList.head? ≠ some '"' := by decide
  obtain ⟨rest, rfl⟩ := h.eq_cons
  refine Bool.eq_false_iff.mpr fun hk => ?_
  have lead := leads _ (List.contains_iff_mem.mp hk)
  rw [String.toList_ofList] at lead
  rcases hq with rfl | rfl
  · exact lead.1 rfl
  · exact lead.2 rfl

theorem isNumeral_eq_false (h : IsEnclosed q cs) (hq : q = '\x60' ∨ q = '"') :
    isNumeral cs = false := by
  obtain ⟨rest, rfl⟩ := h.eq_cons
  rcases hq with rfl | rfl <;> simp [isNumeral]

theorem isString_eq_false (h : IsEnclosed q cs) (hq : q = '\x60' ∨ q = '"') :
    isString cs = false := by
  obtain ⟨rest, rfl⟩ := h.eq_cons
  rcases hq with rfl | rfl <;> rfl

theorem isStar_eq_false (h : IsEnclosed q cs) (hq : q = '\x60' ∨ q = '"') : isStar cs = false := by
  refine Bool.eq_false_iff.mpr fun hstar => ?_
  have starred := Sql.getLast?_of_isStar hstar
  rw [h.last] at starred
  rcases hq with rfl | rfl <;> cases starred

theorem isAtomic_eq (h : IsEnclosed q cs) (hq : q = '\x60' ∨ q = '"') (params : Nat) :
    isAtomic q params cs = isReference q cs := by
  rw [isAtomic, List.isEmpty_eq_false_iff.mpr h.ne_nil, decide_eq_false (h.ne_mark hq),
    h.isCall_eq_false hq, h.isGroup_eq_false hq, h.isKeyword_eq_false hq, h.isNumeral_eq_false hq,
    h.isString_eq_false hq, h.isStar_eq_false hq]
  simp

end IsEnclosed

end Atom

namespace Column

variable {q : Char} {c : Column}

theorem exists_phrase_eq_append (c : Column) (q : Char) :
    ∃ before x, c.phrase q = before ++ Text.quoted q x := by
  obtain ⟨table, name, label, raw⟩ := c
  cases label with
  | some label => exact ⟨_, label.toList, (List.append_assoc _ _ _).symm⟩
  | none =>
    rw [phrase, labelText, List.append_nil]
    cases table with
    | some table =>
      exact ⟨Text.quoted q table.toList ++ ['.'], name.toList, by rw [List.append_assoc]; rfl⟩
    | none => exact ⟨[], name.toList, rfl⟩

theorem isEnclosed_phrase (c : Column) (q : Char) : Atom.IsEnclosed q (c.phrase q) where
  head := by
    obtain ⟨table, name, label, raw⟩ := c
    cases table <;> rfl
  last := by
    obtain ⟨before, x, h⟩ := c.exists_phrase_eq_append q
    rw [h, List.getLast?_append, Sql.getLast?_quoted, Option.some_or]

theorem labelText_eq_nil_iff {label : Option String} : labelText q label = [] ↔ label = none := by
  cases label <;> simp [labelText]

/-- A column has no output name, and its names are made of the characters of words. -/
def IsBare (c : Column) : Prop := c.label = none ∧ IsWord c.name ∧ ∀ t ∈ c.table, IsWord t

instance : DecidablePred IsBare := fun c =>
  inferInstanceAs (Decidable (c.label = none ∧ IsWord c.name ∧ ∀ t ∈ c.table, IsWord t))

theorem isReference_phrase_iff (hq : q = '\x60' ∨ q = '"') (h : c.raw = false) :
    Atom.isReference q (c.phrase q) = true ↔ c.IsBare := by
  constructor
  · intro href
    obtain ⟨table, name, label, raw⟩ := c
    have point : some '.' ≠ some q := by rcases hq with rfl | rfl <;> decide
    have blank : q ≠ ' ' := by rcases hq with rfl | rfl <;> decide
    have apart := head?_labelText_ne blank label
    rcases Atom.isReference_iff.mp href with word | ⟨rest, first, second⟩
    · cases table with
      | none =>
        obtain ⟨hname, hlabel⟩ := Atom.isWord_of_afterQuotedWord? word apart nofun
        exact ⟨labelText_eq_nil_iff.mp hlabel.symm, hname, nofun⟩
      | some table =>
        rw [phrase, text, List.append_assoc] at word
        cases (Atom.isWord_of_afterQuotedWord? word point nofun).2
    · cases table with
      | none =>
        have hlabel := (Atom.isWord_of_afterQuotedWord? first apart point).2
        cases label <;> cases hlabel
      | some table =>
        rw [phrase, text, List.append_assoc] at first
        obtain ⟨htable, hrest⟩ := Atom.isWord_of_afterQuotedWord? first point point
        obtain rfl := (List.cons.inj hrest).2
        obtain ⟨hname, hlabel⟩ := Atom.isWord_of_afterQuotedWord? second apart nofun
        exact ⟨labelText_eq_nil_iff.mp hlabel.symm, hname, fun t ht => Option.some.inj ht ▸ htable⟩
  · rintro ⟨label, name, table⟩
    have plain : c.IsPlain := ⟨h, label, name, table⟩
    rw [phrase, label, labelText, List.append_nil]
    exact isReference_text plain hq

end Column

/-- In each dialect a column with quoted names is atomic exactly when it has no output name and its
names are made of the characters of words, and then as a reference. Its text has no other shape of an
atomic text, whatever its names are. -/
theorem isAtomic_column_iff {d : Dialect} (hd : d ∈ [Dialect.mysql, .postgres, .sqlite]) {c : Column}
    (h : c.IsQuoted) :
    let f := (Expr.column c).fragment d
    (f.isAtomic = true ↔ c.IsBare) ∧
      (Atom.isReference d.quote f.canonical = true ↔ c.IsBare) ∧
      f.canonical ≠ [] ∧ f.canonical ≠ ['?'] ∧
      Atom.isCall f.canonical = false ∧ Atom.isGroup f.canonical = false ∧
      Atom.isKeyword f.canonical = false ∧ Atom.isNumeral f.canonical = false ∧
      Atom.isString f.canonical = false ∧ Atom.isStar f.canonical = false := by
  intro f
  have legible := Sql.isLegible_of_mem hd
  have hq := legible.quote
  have canonical : f.canonical = c.phrase d.quote :=
    Expr.chars_fragment_column_of_isQuoted legible h _
  have reference := Column.isReference_phrase_iff hq h.raw
  have enclosed := c.isEnclosed_phrase d.quote
  have atomic : f.isAtomic = Atom.isReference d.quote (c.phrase d.quote) := by
    rw [Fragment.isAtomic, canonical, Expr.dialect_fragment, enclosed.isAtomic_eq hq]
  rw [atomic, canonical]
  refine ⟨reference, reference, ?_, ?_, enclosed.isCall_eq_false hq, enclosed.isGroup_eq_false hq,
    enclosed.isKeyword_eq_false hq, enclosed.isNumeral_eq_false hq, enclosed.isString_eq_false hq,
    enclosed.isStar_eq_false hq⟩
  · exact enclosed.ne_nil
  · exact enclosed.ne_mark hq

/-- A name with a quote and a point in it stands between quotes as two words with a point do, and it
is not taken for them. -/
theorem not_isAtomic_column_imitation :
    let c : Column := { name := "t\x60.\x60a" }
    Dialect.mysql ∈ [Dialect.mysql, .postgres, .sqlite] ∧ c.IsQuoted ∧ ¬c.IsBare ∧
      ((Expr.column c).fragment .mysql).isAtomic = false := by
  intro c
  have quoted : c.IsQuoted := ⟨rfl, by decide⟩
  have bare : ¬c.IsBare := by decide
  exact ⟨List.mem_cons_self, quoted, bare,
    Bool.eq_false_iff.mpr fun h => bare ((isAtomic_column_iff List.mem_cons_self quoted).1.mp h)⟩

end SqlClause
