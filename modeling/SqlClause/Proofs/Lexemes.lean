import Mathlib
import SqlClause.Column.Path
import SqlClause.Proofs.SqlTokens

/-! # Lexemes of a text

A text is cut into blanks, words, numbers, quoted names, literals, placeholders, brackets and signs.
The lexemes spell the text: each stands for one piece of it, and the pieces follow each other. -/

namespace SqlClause.Sql

inductive Lexeme where
  | blank (c : Char)
  | word (cs : List Char)
  | number (cs : List Char)
  /-- A name in the quotes of names. -/
  | name (cs : List Char)
  /-- A text in single quotes. -/
  | literal (cs : List Char)
  | param (index : Nat)
  | opened
  | closed
  | sign (cs : List Char)
  /-- A quote that is never closed, with all that follows it. -/
  | torn
  deriving DecidableEq

/-- Letters beyond ASCII stand in words too. -/
def inWord (c : Char) : Bool :=
  c.isAlphanum || c = '_' || c = '$' || (127 < c.toNat && !Text.isBlank c)

def inNumber (c : Char) : Bool := inWord c || c = '.'

def startsWithDigit (cs : List Char) : Bool := cs.head?.any Char.isDigit

/-- The text up to a quote that is not doubled, and what comes after the quote. -/
def quotation? (q : Char) : List Char → Option (List Char × List Char)
  | [] => none
  | [c] => if c = q then some ([], []) else none
  | c :: d :: cs =>
    if c = q then
      if d = q then (quotation? q cs).map fun p => (q :: p.1, p.2) else some ([], d :: cs)
    else (quotation? q (d :: cs)).map fun p => (c :: p.1, p.2)

/-- A lexeme, the rank of the placeholder after it and the text after it. -/
structure Cut where
  lexeme : Lexeme
  rank : Nat
  rest : List Char

/-- The lexeme at the start of a text. A question mark stands for the parameter after the `rank`
before it, a number for the parameter that it counts. -/
def cut (q : Char) (rank : Nat) (c : Char) (cs : List Char) : Cut :=
  if Text.isBlank c then ⟨.blank c, rank, cs⟩
  else if c = '(' then ⟨.opened, rank, cs⟩
  else if c = ')' then ⟨.closed, rank, cs⟩
  else if c = '?' then ⟨.param rank, rank + 1, cs⟩
  else if c = '\'' then
    match quotation? '\'' cs with
    | some (body, rest) => ⟨.literal body, rank, rest⟩
    | none => ⟨.torn, rank, []⟩
  else if c = q then
    match quotation? q cs with
    | some (body, rest) => ⟨.name body, rank, rest⟩
    | none => ⟨.torn, rank, []⟩
  else if c = '$' ∧ startsWithDigit cs then
    ⟨.param (Nat.ofDigitChars 10 (cs.takeWhile Char.isDigit) 0 - 1), rank + 1,
      cs.dropWhile Char.isDigit⟩
  else if c.isDigit ∨ c = '.' ∧ startsWithDigit cs then
    ⟨.number (c :: cs.takeWhile inNumber), rank, cs.dropWhile inNumber⟩
  else if inWord c then ⟨.word (c :: cs.takeWhile inWord), rank, cs.dropWhile inWord⟩
  else if isSign c then ⟨.sign (c :: cs.takeWhile isSign), rank, cs.dropWhile isSign⟩
  else ⟨.sign [c], rank, cs⟩

theorem quotation?_spec {q : Char} {cs body rest : List Char}
    (h : quotation? q cs = some (body, rest)) :
    cs = Text.doubled q body ++ q :: rest ∧ rest.head? ≠ some q := by
  fun_induction quotation? q cs generalizing body with
  | case1 => cases h
  | case2 =>
    obtain ⟨rfl, rfl⟩ := by simpa using h
    simp [Text.doubled]
  | case3 => cases h
  | case4 cs ih =>
    obtain ⟨⟨body', rest'⟩, hp, he⟩ := Option.map_eq_some_iff.mp h
    obtain ⟨rfl, rfl⟩ := Prod.mk.inj he
    obtain ⟨rfl, hrest⟩ := ih hp
    simp [Text.doubled, hrest]
  | case5 d cs hd =>
    obtain ⟨rfl, rfl⟩ := by simpa using h
    simp [Text.doubled, hd]
  | case6 c d cs hc ih =>
    obtain ⟨⟨body', rest'⟩, hp, he⟩ := Option.map_eq_some_iff.mp h
    obtain ⟨rfl, rfl⟩ := Prod.mk.inj he
    obtain ⟨hcs, hrest⟩ := ih hp
    refine ⟨?_, hrest⟩
    rw [Text.doubled, if_neg hc, hcs, List.cons_append]

theorem quotation?_doubled {q : Char} (body : List Char) {rest : List Char}
    (h : rest.head? ≠ some q) :
    quotation? q (Text.doubled q body ++ q :: rest) = some (body, rest) := by
  induction body with
  | nil =>
    cases rest with
    | nil => simp [Text.doubled, quotation?]
    | cons d ds =>
      have hd : d ≠ q := by simpa using h
      simp [Text.doubled, quotation?, hd]
  | cons c body ih =>
    rw [Text.doubled]
    split
    · rename_i hc
      simp [quotation?, ih, hc]
    · rename_i hc
      cases hd : Text.doubled q body ++ q :: rest with
      | nil => simp at hd
      | cons d ds => rw [List.cons_append, hd, quotation?, if_neg hc, ← hd, ih]; rfl

theorem length_rest_cut_le (q : Char) (rank : Nat) (c : Char) (cs : List Char) :
    (cut q rank c cs).rest.length ≤ cs.length := by
  have quoted {p : Char} {body rest : List Char} (h : quotation? p cs = some (body, rest)) :
      rest.length ≤ cs.length := by
    rw [(quotation?_spec h).1, List.length_append, List.length_cons]
    omega
  have dropped (p : Char → Bool) : (cs.dropWhile p).length ≤ cs.length :=
    (List.dropWhile_suffix p).length_le
  unfold cut
  repeat' split
  all_goals first
    | exact Nat.le_refl _
    | exact dropped _
    | exact quoted ‹_›
    | exact Nat.zero_le _

/-- The lexemes of a text in which names stand in `q`, when there are `rank` placeholders before. -/
def lexemes (q : Char) (rank : Nat) : List Char → List Lexeme
  | [] => []
  | c :: cs => (cut q rank c cs).lexeme :: lexemes q (cut q rank c cs).rank (cut q rank c cs).rest
termination_by cs => cs.length
decreasing_by
  have := length_rest_cut_le q rank c cs
  rw [List.length_cons]
  omega

example : lexemes '"' 0 "t.\"a b\" <> 'it''s'".toList =
    [.word ['t'], .sign ['.'], .name ['a', ' ', 'b'], .blank ' ', .sign ['<', '>'], .blank ' ',
      .literal ['i', 't', '\'', 's']] := by cbv

/-- The pieces of text that a lexeme may stand for. -/
inductive Lexeme.Spells (q : Char) : Lexeme → List Char → Prop where
  | blank {c : Char} (h : Text.isBlank c = true) : Spells q (.blank c) [c]
  | opened : Spells q .opened ['(']
  | closed : Spells q .closed [')']
  | param {index : Nat} {digits : List Char} {c : Char} (hc : c = '?' ∨ c = '$')
      (h : ∀ d ∈ digits, d.isDigit = true) : Spells q (.param index) (c :: digits)
  | literal {body : List Char} : Spells q (.literal body) (Text.quoted '\'' body)
  | name {body : List Char} : Spells q (.name body) (Text.quoted q body)
  | number {c : Char} {cs : List Char} (h : ∀ d ∈ c :: cs, inNumber d = true) :
      Spells q (.number (c :: cs)) (c :: cs)
  | word {c : Char} {cs : List Char} (h : ∀ d ∈ c :: cs, inWord d = true) :
      Spells q (.word (c :: cs)) (c :: cs)
  | relation {c : Char} {cs : List Char} (h : ∀ d ∈ c :: cs, isSign d = true) :
      Spells q (.sign (c :: cs)) (c :: cs)
  | sign {c : Char} (h : Text.isBlank c = false ∧ c ≠ '(' ∧ c ≠ ')' ∧ c ≠ '\'') :
      Spells q (.sign [c]) [c]
  | torn {c : Char} {cs : List Char} : Spells q .torn (c :: cs)

theorem Lexeme.Spells.ne_nil {q : Char} {t : Lexeme} {piece : List Char} (h : t.Spells q piece) :
    piece ≠ [] := by
  cases h <;> simp [Text.quoted]

/-- The lexemes spell the text, one piece after the other. -/
inductive Spelled (q : Char) : List Lexeme → List Char → Prop where
  | nil : Spelled q [] []
  | cons {t : Lexeme} {piece : List Char} {ts : List Lexeme} {cs : List Char}
      (h : t.Spells q piece) (rest : Spelled q ts cs) : Spelled q (t :: ts) (piece ++ cs)

theorem spells_cut (q : Char) (rank : Nat) (c : Char) (cs : List Char) :
    ∃ piece, (cut q rank c cs).lexeme.Spells q piece ∧ c :: cs = piece ++ (cut q rank c cs).rest := by
  unfold cut
  split
  case isTrue hb => exact ⟨[c], .blank hb, rfl⟩
  case isFalse hb =>
  split
  case isTrue ho => exact ⟨['('], .opened, by rw [ho]; rfl⟩
  case isFalse ho =>
  split
  case isTrue hc => exact ⟨[')'], .closed, by rw [hc]; rfl⟩
  case isFalse hc =>
  split
  case isTrue hp => exact ⟨['?'], .param (.inl rfl) (by simp), by rw [hp]; rfl⟩
  case isFalse hp =>
  split
  case isTrue hl =>
    split
    · rename_i body rest h
      refine ⟨_, .literal, ?_⟩
      rw [(quotation?_spec h).1, hl, Text.quoted]
      simp
    · exact ⟨c :: cs, .torn, (List.append_nil _).symm⟩
  case isFalse hl =>
  split
  case isTrue hq =>
    split
    · rename_i body rest h
      refine ⟨_, .name, ?_⟩
      rw [(quotation?_spec h).1, hq, Text.quoted]
      simp
    · exact ⟨c :: cs, .torn, (List.append_nil _).symm⟩
  case isFalse hq =>
  split
  case isTrue hn =>
    exact ⟨c :: cs.takeWhile Char.isDigit, .param (.inr hn.1) fun d hd => List.mem_takeWhile_imp hd,
      by simp⟩
  case isFalse hn =>
  split
  case isTrue hd =>
    refine ⟨c :: cs.takeWhile inNumber, .number (List.forall_mem_cons.mpr ⟨?_, ?_⟩), by simp⟩
    · rcases hd with hd | hd
      · simp [inNumber, inWord, Char.isAlphanum, hd]
      · simp [inNumber, hd.1]
    · exact fun e he => List.mem_takeWhile_imp he
  case isFalse hd =>
  split
  case isTrue hw =>
    exact ⟨c :: cs.takeWhile inWord,
      .word (List.forall_mem_cons.mpr ⟨hw, fun e he => List.mem_takeWhile_imp he⟩), by simp⟩
  case isFalse hw =>
  split
  case isTrue hs =>
    exact ⟨c :: cs.takeWhile isSign,
      .relation (List.forall_mem_cons.mpr ⟨hs, fun e he => List.mem_takeWhile_imp he⟩), by simp⟩
  case isFalse hs => exact ⟨[c], .sign (by simp [hb, ho, hc, hl]), rfl⟩

/-- The lexemes of a text spell all of it. -/
theorem spelled_lexemes (q : Char) (rank : Nat) (cs : List Char) :
    Spelled q (lexemes q rank cs) cs := by
  fun_induction lexemes q rank cs with
  | case1 => exact .nil
  | case2 rank c cs ih =>
    obtain ⟨piece, hp, hcs⟩ := spells_cut q rank c cs
    rw [hcs]
    exact .cons hp ih

section Pieces

variable {q : Char} {rank : Nat} {rest : List Char}

@[simp] theorem lexemes_nil : lexemes q rank [] = [] := by rw [lexemes]

theorem lexemes_blank {c : Char} (h : Text.isBlank c = true) :
    lexemes q rank (c :: rest) = .blank c :: lexemes q rank rest := by
  rw [lexemes, cut, if_pos h]

theorem lexemes_opened : lexemes q rank ('(' :: rest) = .opened :: lexemes q rank rest := by
  rw [lexemes]
  rfl

theorem lexemes_closed : lexemes q rank (')' :: rest) = .closed :: lexemes q rank rest := by
  rw [lexemes]
  rfl

theorem lexemes_mark : lexemes q rank ('?' :: rest) = .param rank :: lexemes q (rank + 1) rest := by
  rw [lexemes]
  rfl

theorem lexemes_quoted (hq : q = '\x60' ∨ q = '"') (name : List Char) (h : rest.head? ≠ some q) :
    lexemes q rank (Text.quoted q name ++ rest) = .name name :: lexemes q rank rest := by
  have body := quotation?_doubled name h
  have start (cs : List Char) :
      cut q rank q cs = match quotation? q cs with
        | some (body, rest) => ⟨.name body, rank, rest⟩
        | none => ⟨.torn, rank, []⟩ := by
    rcases hq with rfl | rfl <;> rfl
  rw [Text.quoted, List.cons_append, List.append_assoc, List.singleton_append, lexemes, start, body]

theorem takeWhile_append_of_head? {p : Char → Bool} {cs : List Char} (h : ∀ c ∈ cs, p c = true)
    (hrest : ∀ c ∈ rest.head?, p c = false) :
    (cs ++ rest).takeWhile p = cs ∧ (cs ++ rest).dropWhile p = rest := by
  have stops : rest.takeWhile p = [] ∧ rest.dropWhile p = rest := by
    cases rest with
    | nil => exact ⟨rfl, rfl⟩
    | cons d ds =>
      have hd : p d = false := hrest d rfl
      simp [hd]
  rw [List.takeWhile_append_of_pos h, List.dropWhile_append_of_pos h, stops.1, stops.2]
  exact ⟨List.append_nil cs, rfl⟩

/-- A word ends where no character of a word follows. -/
theorem lexemes_word (hq : q = '\x60' ∨ q = '"') {c : Char} {cs : List Char}
    (hc : Column.startsWord c = true) (hcs : ∀ d ∈ cs, inWord d = true)
    (h : ∀ d ∈ rest.head?, inWord d = false) :
    lexemes q rank (c :: cs ++ rest) = .word (c :: cs) :: lexemes q rank rest := by
  obtain ⟨taken, dropped⟩ := takeWhile_append_of_head? hcs h
  have other (d : Char) (hd : Column.startsWord d = false) : c ≠ d := fun e => by
    rw [e, hd] at hc
    cases hc
  have unblank : Text.isBlank c = false := by
    refine Bool.eq_false_iff.mpr fun hb => ?_
    have letters : ∀ d ∈ Text.blanks, (!Column.startsWord d) = true :=
      List.all_eq_true.mp (by decide)
    have here := letters c (by simpa [Text.isBlank] using hb)
    exact other c (by simpa using here) rfl
  have undigit : c.isDigit = false := by
    refine Bool.eq_false_iff.mpr fun hd => ?_
    have hu : c ≠ '_' := fun e => by rw [e] at hd; cases hd
    simp only [Column.startsWord, hu, false_or, Char.isAlpha, Char.isUpper, Char.isLower,
      Char.isDigit, Bool.or_eq_true, Bool.and_eq_true, decide_eq_true_eq,
      UInt32.le_iff_toNat_le] at hc hd
    have nine : '9'.val.toNat = 57 := rfl
    have upper : 'A'.val.toNat = 65 := rfl
    have lower : 'a'.val.toNat = 97 := rfl
    omega
  have hw : inWord c = true := by
    simp only [Column.startsWord, decide_eq_true_eq] at hc
    rcases hc with hc | hc <;> simp [inWord, Char.isAlphanum, hc]
  have hq' : c ≠ q := by rcases hq with rfl | rfl <;> exact other _ rfl
  rw [List.cons_append, lexemes, cut, if_neg (by simp [unblank]), if_neg (other '(' rfl),
    if_neg (other ')' rfl), if_neg (other '?' rfl), if_neg (other '\'' rfl), if_neg hq',
    if_neg fun hn => other '$' rfl hn.1, if_neg (by simp [undigit, other '.' rfl]), if_pos hw, taken,
    dropped]

/-- Signs of relations run on to the character that is none. -/
theorem lexemes_sign (hq : q = '\x60' ∨ q = '"') {c : Char} {cs : List Char}
    (hc : isSign c = true) (hcs : ∀ d ∈ cs, isSign d = true)
    (h : ∀ d ∈ rest.head?, isSign d = false) :
    lexemes q rank (c :: cs ++ rest) = .sign (c :: cs) :: lexemes q rank rest := by
  obtain ⟨taken, dropped⟩ := takeWhile_append_of_head? hcs h
  have start (ds : List Char) :
      cut q rank c ds = ⟨.sign (c :: ds.takeWhile isSign), rank, ds.dropWhile isSign⟩ := by
    simp only [isSign, Bool.or_eq_true, decide_eq_true_eq] at hc
    rcases hc with ((rfl | rfl) | rfl) | rfl <;> rcases hq with rfl | rfl <;> rfl
  rw [List.cons_append, lexemes, start, taken, dropped]

theorem lexemes_stray (hq : q = '\x60' ∨ q = '"') {c : Char}
    (hc : c ∈ ['+', '-', '*', '/', ',']) :
    lexemes q rank (c :: rest) = .sign [c] :: lexemes q rank rest := by
  simp only [List.mem_cons, List.not_mem_nil, or_false] at hc
  rw [lexemes]
  rcases hc with rfl | rfl | rfl | rfl | rfl <;> rcases hq with rfl | rfl <;> rfl

theorem lexemes_point (hq : q = '\x60' ∨ q = '"') (h : startsWithDigit rest = false) :
    lexemes q rank ('.' :: rest) = .sign ['.'] :: lexemes q rank rest := by
  have start : cut q rank '.' rest = ⟨.sign ['.'], rank, rest⟩ := by
    rcases hq with rfl | rfl <;>
      simp [cut, h, Text.isBlank, Text.blanks, inWord, isSign, Char.isAlphanum, Char.isAlpha,
        Char.isUpper, Char.isLower, Char.isDigit]
  rw [lexemes, start]

end Pieces

end SqlClause.Sql
