import SqlClause.Expr.Render

/-! # Reading a statement as tokens

A text is read from left to right. What has been read of a token that may go on is pending; the next
character either continues it or ends it. -/

namespace SqlClause.Sql

inductive Keyword where
  | and
  | or
  | not
  | isIn
  | like
  | between
  | is
  | null
  deriving DecidableEq

def Keyword.spelling : Keyword → List Char
  | .and => ['A', 'N', 'D']
  | .or => ['O', 'R']
  | .not => ['N', 'O', 'T']
  | .isIn => ['I', 'N']
  | .like => ['L', 'I', 'K', 'E']
  | .between => ['B', 'E', 'T', 'W', 'E', 'E', 'N']
  | .is => ['I', 'S']
  | .null => ['N', 'U', 'L', 'L']

/-- The case of letters does not matter. -/
def Keyword.ofText? (cs : List Char) : Option Keyword :=
  [.and, .or, .not, .isIn, .like, .between, .is, .null].find? fun w =>
    w.spelling = cs.map Char.toUpper

inductive Token where
  | keyword (w : Keyword)
  /-- A name in quotes, or a word that is no keyword. -/
  | name (cs : List Char)
  | sign (cs : List Char)
  | param (index : Nat)
  | opened
  | closed
  | comma
  | point
  | stray (c : Char)
  deriving DecidableEq

inductive Pending where
  | nothing
  /-- A token that no character continues. -/
  | single (t : Token)
  | mark
  | word (cs : List Char)
  | name (cs : List Char)
  /-- A name with a quote after it, which ends the name unless it is doubled. -/
  | quoted (cs : List Char)
  | number (cs : List Char)
  | sign (cs : List Char)

def isSign (c : Char) : Bool := c = '=' || c = '<' || c = '>' || c = '!'

def punctuation? : Char → Option Token
  | '(' => some .opened
  | ')' => some .closed
  | ',' => some .comma
  | '.' => some .point
  | _ => none

namespace Pending

/-- What is pending when a character starts a token. -/
def start (quote c : Char) : Pending :=
  if c.isWhitespace then .nothing
  else if c = quote then .name []
  else if c = '?' then .mark
  else if c = '$' then .number []
  else if isSign c then .sign [c]
  else if c.isAlpha || c = '_' then .word [c]
  else .single ((punctuation? c).getD (.stray c))

def extend? (quote c : Char) : Pending → Option Pending
  | .nothing | .single _ | .mark => none
  | .word cs => if c.isAlphanum || c = '_' || c = '$' then some (.word (cs ++ [c])) else none
  | .name cs => some (if c = quote then .quoted cs else .name (cs ++ [c]))
  | .quoted cs => if c = quote then some (.name (cs ++ [c])) else none
  | .number cs => if c.isDigit then some (.number (cs ++ [c])) else none
  | .sign cs => if isSign c then some (.sign (cs ++ [c])) else none

/-- The token that ends here. A question mark stands for the parameter after the `rank` before it, a
number for the parameter that it counts. -/
def tokens (rank : Nat) : Pending → List Token
  | .nothing => []
  | .single t => [t]
  | .mark => [.param rank]
  | .word cs => [((Keyword.ofText? cs).map .keyword).getD (.name cs)]
  | .name _ => [.stray '"']
  | .quoted cs => [.name cs]
  | .number cs => [.param (Nat.ofDigitChars 10 cs 0 - 1)]
  | .sign cs => [.sign cs]

/-- The number of parameters read when the token has ended. -/
def rankAfter (rank : Nat) : Pending → Nat
  | .mark | .number _ => rank + 1
  | _ => rank

end Pending

def lex (quote : Char) (rank : Nat) : Pending → List Char → List Token
  | p, [] => p.tokens rank
  | p, c :: cs =>
    match p.extend? quote c with
    | some p => lex quote rank p cs
    | none => p.tokens rank ++ lex quote (p.rankAfter rank) (.start quote c) cs

/-- The tokens of a text in which names stand in `quote`. -/
def tokens (quote : Char) (cs : List Char) : List Token := lex quote 0 .nothing cs

/-- What follows a token that it is apart from. -/
def Apart (cs : List Char) : Prop := ∀ c ∈ cs.head?, c = ' ' ∨ c = ')' ∨ c = ',' ∨ c = '.'

theorem apart_nil : Apart [] := by simp [Apart]

theorem apart_cons {c : Char} (h : c = ' ' ∨ c = ')' ∨ c = ',' ∨ c = '.') (cs : List Char) :
    Apart (c :: cs) := by
  simpa [Apart] using h

variable {quote : Char} {rank : Nat} {rest : List Char}

/-- A pending token ends before a character that does not continue it. -/
theorem lex_of_extend?_eq_none {p : Pending} (h : ∀ c ∈ rest.head?, p.extend? quote c = none) :
    lex quote rank p rest = p.tokens rank ++ lex quote (p.rankAfter rank) .nothing rest := by
  cases rest with
  | nil => simp [lex, Pending.tokens]
  | cons c cs =>
    have hp := h c rfl
    rw [lex, hp, lex]
    rfl

theorem lex_punctuation (hq : quote = '\x60' ∨ quote = '"') {c : Char} {t : Token}
    (h : punctuation? c = some t) :
    lex quote rank .nothing (c :: rest) = t :: lex quote rank .nothing rest := by
  have start : Pending.start quote c = .single t := by
    unfold punctuation? at h
    split at h
    case h_5 => cases h
    all_goals
      obtain rfl := Option.some.inj h
      rcases hq with rfl | rfl <;> rfl
  rw [lex, Pending.extend?]
  simp only
  rw [start, lex_of_extend?_eq_none fun d _ => rfl]
  rfl

theorem lex_word {cs : List Char} (h : Apart rest) :
    lex quote rank (.word cs) rest =
      ((Keyword.ofText? cs).map .keyword).getD (.name cs) :: lex quote rank .nothing rest := by
  refine lex_of_extend?_eq_none fun c hc => ?_
  rcases h c hc with rfl | rfl | rfl | rfl <;> rfl

theorem lex_digits {digits cs : List Char} (h : ∀ c ∈ digits, c.isDigit = true) :
    lex quote rank (.number cs) (digits ++ rest) = lex quote rank (.number (cs ++ digits)) rest := by
  induction digits generalizing cs with
  | nil => simp
  | cons c digits ih =>
    have hc : c.isDigit = true := h c List.mem_cons_self
    rw [List.cons_append, lex, Pending.extend?, if_pos hc]
    simp only
    rw [ih fun d hd => h d (List.mem_cons_of_mem c hd), List.append_assoc, List.singleton_append]

theorem lex_number {cs : List Char} (h : Apart rest) :
    lex quote rank (.number cs) rest =
      .param (Nat.ofDigitChars 10 cs 0 - 1) :: lex quote (rank + 1) .nothing rest := by
  refine lex_of_extend?_eq_none fun c hc => ?_
  rcases h c hc with rfl | rfl | rfl | rfl <;> rfl

/-- Within quotes the doubled text of a name is read as the name. -/
theorem lex_doubled (name cs : List Char) :
    lex quote rank (.name cs) (Text.doubled quote name ++ rest) =
      lex quote rank (.name (cs ++ name)) rest := by
  induction name generalizing cs with
  | nil => simp [Text.doubled]
  | cons c name ih =>
    have joined : cs ++ c :: name = cs ++ [c] ++ name := by simp
    rw [Text.doubled]
    split
    · rename_i hc
      subst hc
      rw [List.cons_append, List.cons_append, lex, Pending.extend?, if_pos rfl]
      simp only
      rw [lex, Pending.extend?, if_pos rfl]
      simp only
      rw [ih, joined]
    · rename_i hc
      rw [List.cons_append, lex, Pending.extend?, if_neg hc]
      simp only
      rw [ih, joined]

/-- The quote and the placeholders of a dialect whose texts can be read. -/
structure IsLegible (d : Dialect) : Prop where
  quote : d.quote = '\x60' ∨ d.quote = '"'
  quoted : d.quoted = Text.quoted d.quote
  placeholder : ∀ rank rest, Apart rest →
    lex d.quote rank .nothing (d.placeholder (rank + 1) ++ rest) =
      .param rank :: lex d.quote (rank + 1) .nothing rest

theorem isLegible_postgres : IsLegible .postgres where
  quote := .inr rfl
  quoted := rfl
  placeholder rank rest h := by
    have digits : ∀ c ∈ Nat.toDigits 10 (rank + 1), c.isDigit = true := fun c hc =>
      Nat.isDigit_of_mem_toDigits (by decide) (by decide) hc
    calc lex '"' rank .nothing ('$' :: Nat.toDigits 10 (rank + 1) ++ rest)
        = lex '"' rank (.number []) (Nat.toDigits 10 (rank + 1) ++ rest) := rfl
      _ = lex '"' rank (.number (Nat.toDigits 10 (rank + 1))) rest := by
          rw [lex_digits digits, List.nil_append]
      _ = .param rank :: lex '"' (rank + 1) .nothing rest := by
          rw [lex_number h, Nat.ofDigitChars_toDigits (by decide) (by decide), Nat.add_sub_cancel]

/-- The dialects that write a question mark differ in their quotes only. -/
theorem isLegible_of_mem {d : Dialect} (h : d ∈ [Dialect.mysql, .postgres, .sqlite]) :
    IsLegible d := by
  have marks (q : Char) (hq : q = '\x60' ∨ q = '"') (rank : Nat) (rest : List Char) :
      lex q rank .nothing ('?' :: rest) = .param rank :: lex q (rank + 1) .nothing rest := by
    have start : Pending.start q '?' = .mark := by rcases hq with rfl | rfl <;> rfl
    rw [lex, Pending.extend?]
    simp only
    rw [start, lex_of_extend?_eq_none fun c _ => rfl]
    rfl
  simp only [List.mem_cons, List.not_mem_nil, or_false] at h
  rcases h with rfl | rfl | rfl
  · exact ⟨.inl rfl, rfl, fun rank rest _ => marks _ (.inl rfl) rank rest⟩
  · exact isLegible_postgres
  · exact ⟨.inr rfl, rfl, fun rank rest _ => marks _ (.inr rfl) rank rest⟩

theorem lex_quoted (hq : quote = '\x60' ∨ quote = '"') (name : List Char) (h : Apart rest) :
    lex quote rank .nothing (Text.quoted quote name ++ rest) =
      .name name :: lex quote rank .nothing rest := by
  have start : Pending.start quote quote = .name [] := by rcases hq with rfl | rfl <;> rfl
  have ends : ∀ c ∈ rest.head?, (Pending.quoted name).extend? quote c = none := by
    intro c hc
    rcases h c hc with rfl | rfl | rfl | rfl <;> rcases hq with rfl | rfl <;> rfl
  calc lex quote rank .nothing (Text.quoted quote name ++ rest)
      = lex quote rank (.name []) (Text.doubled quote name ++ quote :: rest) := by
        rw [Text.quoted, List.cons_append, List.append_assoc, lex, Pending.extend?]
        simp only
        rw [start]
        rfl
    _ = lex quote rank (.quoted name) rest := by
        rw [lex_doubled, List.nil_append, lex, Pending.extend?, if_pos rfl]
    _ = .name name :: lex quote rank .nothing rest := lex_of_extend?_eq_none ends

end SqlClause.Sql
