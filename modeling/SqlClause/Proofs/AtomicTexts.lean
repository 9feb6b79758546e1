import SqlClause.Proofs.LexemeLevels

/-! # What atomic texts are made of

A text passes for atomic by its first and last characters and by a count of its brackets. Three kinds
of text pass that are not one operand: two literals with something between them, a star after
something that is no name, and groups apart from each other where a quoted bracket hides the gap. -/

namespace SqlClause

namespace Sql

namespace Lexeme

/-- Names, literals, numbers and parameters. -/
def isOperand : Lexeme → Bool
  | .word _ | .name _ | .literal _ | .number _ | .param _ => true
  | _ => false

def isName : Lexeme → Bool
  | .word _ | .name _ => true
  | _ => false

/-- Whether a bracket stands within quotes, as it may in what is torn. -/
def hidesBracket : Lexeme → Bool
  | .name cs | .literal cs => '(' ∈ cs || ')' ∈ cs
  | .torn => true
  | _ => false

end Lexeme

def point : Lexeme := .sign ['.']

def star : Lexeme := .sign ['*']

/-- One bracketed group, closed by its last lexeme. -/
inductive IsGroup : List Lexeme → Prop where
  | intro {inner : List Lexeme} (h : IsBalanced inner) : IsGroup (.opened :: inner ++ [.closed])

/-- Names with points between them. -/
inductive IsDotted : List Lexeme → Prop where
  | single {t : Lexeme} (h : t.isName = true) : IsDotted [t]
  | cons {t : Lexeme} {ts : List Lexeme} (h : t.isName = true) (rest : IsDotted ts) :
      IsDotted (t :: point :: ts)

/-- One operand that keeps its meaning next to any operator. -/
inductive IsPrimary : List Lexeme → Prop where
  | single {t : Lexeme} (h : t.isOperand = true) : IsPrimary [t]
  | negative (cs : List Char) : IsPrimary [.sign ['-'], .number cs]
  | dotted {ts : List Lexeme} (h : IsDotted ts) : IsPrimary ts
  | star : IsPrimary [star]
  | dottedStar {ts : List Lexeme} (h : IsDotted ts) : IsPrimary (ts ++ [point, Sql.star])
  | group {ts : List Lexeme} (h : IsGroup ts) : IsPrimary ts
  | call (cs : List Char) {ts : List Lexeme} (h : IsGroup ts) : IsPrimary (.word cs :: ts)

/-- The texts that pass for one operand and are none. -/
inductive IsMisread : List Lexeme → Prop where
  /-- Two literals, whatever is between them. -/
  | literals (a b : List Char) (ts : List Lexeme) : IsMisread (.literal a :: ts ++ [.literal b])
  /-- A star that follows something else than a name and a point. -/
  | star {ts : List Lexeme} (full : ts ≠ []) (h : ∀ us, IsDotted us → ts ≠ us ++ [point]) :
      IsMisread (ts ++ [star])
  /-- A group or call with more text after it and a bracket in the quotes within it. -/
  | group {lead inner rest : List Lexeme} (hlead : lead = [] ∨ ∃ cs, lead = [.word cs])
      (balanced : IsBalanced inner) (hides : ∃ t ∈ inner, t.hidesBracket = true)
      (more : rest ≠ []) : IsMisread (lead ++ (.opened :: inner ++ .closed :: rest))

section Brackets

variable {m n k : Nat} {ts us : List Lexeme}

@[simp] theorem brackets_opened : brackets n (.opened :: ts) = brackets (n + 1) ts := by
  simp [brackets, scan, Lexeme.bracket]

@[simp] theorem brackets_closed_succ : brackets (n + 1) (.closed :: ts) = brackets n ts := by
  simp [brackets, scan, Lexeme.bracket]

@[simp] theorem brackets_closed_zero : brackets 0 (.closed :: ts) = none := by
  simp [brackets, scan, Lexeme.bracket]

theorem brackets_of_stays {t : Lexeme} (h : t.bracket = .stays) :
    brackets n (t :: ts) = brackets n ts := by
  simp [brackets, scan, h]

theorem brackets_append_of_some (h : brackets n ts = some m) :
    brackets n (ts ++ us) = brackets m us := scan_append_of_some h

/-- Where the level falls to zero for the first time, a bracket closes. -/
theorem exists_closing (h : brackets (k + 1) ts = some 0) :
    ∃ inner rest, ts = inner ++ .closed :: rest ∧ brackets k inner = some 0 ∧ IsBalanced rest := by
  induction ts generalizing k with
  | nil => cases h
  | cons t ts ih =>
    cases hb : t.bracket with
    | opens =>
      obtain rfl : t = .opened := by cases t <;> first | rfl | cases hb
      obtain ⟨inner, rest, rfl, hin, hrest⟩ := ih (k := k + 1) (by simpa using h)
      exact ⟨.opened :: inner, rest, rfl, by simpa using hin, hrest⟩
    | closes =>
      obtain rfl : t = .closed := by cases t <;> first | rfl | cases hb
      rw [brackets_closed_succ] at h
      cases k with
      | zero => exact ⟨[], ts, rfl, rfl, h⟩
      | succ k =>
        obtain ⟨inner, rest, rfl, hin, hrest⟩ := ih h
        exact ⟨.closed :: inner, rest, rfl, by simpa using hin, hrest⟩
    | stays =>
      rw [brackets_of_stays hb] at h
      obtain ⟨inner, rest, rfl, hin, hrest⟩ := ih h
      exact ⟨t :: inner, rest, rfl, by rw [brackets_of_stays hb]; exact hin, hrest⟩

end Brackets

section Characters

variable {q : Char} {ts us : List Lexeme} {cs ds : List Char}

theorem Spelled.append_inv (h : Spelled q (ts ++ us) cs) :
    ∃ xs ys, cs = xs ++ ys ∧ Spelled q ts xs ∧ Spelled q us ys := by
  induction ts generalizing cs with
  | nil => exact ⟨[], cs, rfl, .nil, h⟩
  | cons t ts ih =>
    cases h with
    | cons hp rest =>
      obtain ⟨xs, ys, rfl, hxs, hys⟩ := ih rest
      exact ⟨_, ys, (List.append_assoc _ _ _).symm, .cons hp hxs, hys⟩

theorem Spelled.ne_nil (h : Spelled q ts cs) (full : ts ≠ []) : cs ≠ [] := by
  cases h with
  | nil => exact absurd rfl full
  | cons hp rest => simp [hp.ne_nil]

theorem mem_doubled {c : Char} (h : c ∈ Text.doubled q cs) : c ∈ cs ∨ c = q := by
  induction cs with
  | nil => cases h
  | cons d cs ih =>
    rw [Text.doubled] at h
    split at h
    · rcases List.mem_cons.mp h with h | h
      · exact .inr h
      · rcases List.mem_cons.mp h with h | h
        · exact .inr h
        · exact (ih h).imp_left (List.mem_cons_of_mem d)
    · rcases List.mem_cons.mp h with h | h
      · exact .inl (h ▸ List.mem_cons_self)
      · exact (ih h).imp_left (List.mem_cons_of_mem d)

theorem mem_quoted {c : Char} (h : c ∈ Text.quoted q cs) : c ∈ cs ∨ c = q := by
  rw [Text.quoted, List.mem_cons, List.mem_append, List.mem_singleton] at h
  rcases h with h | h | h
  · exact .inr h
  · exact mem_doubled h
  · exact .inr h

/-- A lexeme of an own kind, or a literal or name without a bracket in it, has no bracket in its
text. -/
theorem Lexeme.Spells.not_bracket (hq : q = '\x60' ∨ q = '"') {t : Lexeme}
    (h : t.Spells q cs) (hb : t.bracket = .stays) (quiet : t.hidesBracket = false) :
    ∀ c ∈ cs, c ≠ '(' ∧ c ≠ ')' := by
  have quotes {p : Char} (hp : p ≠ '(' ∧ p ≠ ')') {body : List Char}
      (hbody : (decide ('(' ∈ body) || decide (')' ∈ body)) = false) :
      ∀ c ∈ Text.quoted p body, c ≠ '(' ∧ c ≠ ')' := by
    simp only [Bool.or_eq_false_iff, decide_eq_false_iff_not] at hbody
    intro c hc
    rcases mem_quoted hc with hc | rfl
    · exact ⟨fun e => hbody.1 (e ▸ hc), fun e => hbody.2 (e ▸ hc)⟩
    · exact hp
  cases h with
  | blank h =>
    rw [List.forall_mem_singleton]
    constructor <;> rintro rfl <;> revert h <;> decide
  | opened => cases hb
  | closed => cases hb
  | param hc h =>
    refine List.forall_mem_cons.mpr ⟨?_, fun d hd => ?_⟩
    · rcases hc with rfl | rfl <;> decide
    · have := h d hd
      constructor <;> rintro rfl <;> revert this <;> decide
  | literal => exact quotes (by decide) quiet
  | name => exact quotes (by rcases hq with rfl | rfl <;> decide) quiet
  | number h | word h | relation h =>
    intro d hd
    have := h d hd
    constructor <;> rintro rfl <;> revert this <;> decide
  | sign h => rw [List.forall_mem_singleton]; exact ⟨h.2.1, h.2.2.1⟩
  | torn => cases quiet

theorem closesAtEnd_append_of_not_bracket {n : Nat} (h : ∀ c ∈ cs, c ≠ '(' ∧ c ≠ ')') :
    Atom.closesAtEnd n (cs ++ ds) = Atom.closesAtEnd n ds := by
  induction cs with
  | nil => rfl
  | cons c cs ih =>
    obtain ⟨hc, hcs⟩ := List.forall_mem_cons.mp h
    rw [List.cons_append, ← ih hcs]
    cases n <;> simp [Atom.closesAtEnd, hc.1, hc.2]

/-- Where quotes hide no bracket, the count of the characters is that of the lexemes. -/
theorem Spelled.closesAtEnd_append (hq : q = '\x60' ∨ q = '"') (h : Spelled q ts cs)
    (quiet : ∀ t ∈ ts, t.hidesBracket = false) {m k : Nat}
    (hb : brackets m ts = some k) (n : Nat) :
    Atom.closesAtEnd (n + m) (cs ++ ds) = Atom.closesAtEnd (n + k) ds := by
  induction h generalizing m with
  | nil => rw [Option.some.inj hb]; rfl
  | @cons t piece ts cs hp rest ih =>
    obtain ⟨ht, hts⟩ := List.forall_mem_cons.mp quiet
    cases ht' : t.bracket with
    | opens =>
      obtain rfl : t = .opened := by cases t <;> first | rfl | cases ht'
      cases hp
      rw [brackets_opened] at hb
      exact ih hts hb
    | closes =>
      obtain rfl : t = .closed := by cases t <;> first | rfl | cases ht'
      cases hp
      cases m with
      | zero => rw [brackets_closed_zero] at hb; cases hb
      | succ m =>
        rw [brackets_closed_succ] at hb
        exact ih hts hb
    | stays =>
      rw [brackets_of_stays ht'] at hb
      rw [List.append_assoc, closesAtEnd_append_of_not_bracket
        (hp.not_bracket hq ht' ht)]
      exact ih hts hb

/-- A group that is closed before the end of the text does not pass for a group of its own, unless
quotes hide a bracket. -/
theorem Spelled.isGroup_eq_false (hq : q = '\x60' ∨ q = '"') {inner rest : List Lexeme}
    (h : Spelled q (.opened :: inner ++ .closed :: rest) cs) (balanced : IsBalanced inner)
    (quiet : ∀ t ∈ inner, t.hidesBracket = false) (more : rest ≠ []) :
    Atom.isGroup cs = false := by
  rw [List.cons_append] at h
  cases h with
  | cons hp h =>
    cases hp
    obtain ⟨xs, ys, rfl, hxs, hys⟩ := h.append_inv
    cases hys with
    | cons hp hrest =>
      cases hp
      rw [List.singleton_append, Atom.isGroup, hxs.closesAtEnd_append hq quiet balanced 0]
      simp [Atom.closesAtEnd, hrest.ne_nil more]

/-- The last character of a text is the last of its last lexeme. -/
theorem Spelled.exists_getLast (h : Spelled q ts cs) {c : Char} (hc : cs.getLast? = some c) :
    ∃ before t piece, ts = before ++ [t] ∧ t.Spells q piece ∧ piece.getLast? = some c := by
  rcases List.eq_nil_or_concat ts with rfl | ⟨before, t, rfl⟩
  · cases h
    cases hc
  · rw [List.concat_eq_append] at h
    obtain ⟨xs, ys, rfl, -, hys⟩ := h.append_inv
    cases hys with
    | cons hp rest =>
      cases rest
      rw [List.append_nil, List.getLast?_append, Option.or_of_isSome (by simp [hp.ne_nil])] at hc
      exact ⟨before, t, _, List.concat_eq_append, hp, hc⟩

theorem getLast?_quoted (p : Char) (cs : List Char) :
    (Text.quoted p cs).getLast? = some p := by
  rw [Text.quoted, ← List.cons_append, List.getLast?_concat]

/-- What ends with a quote of literals is a literal, and what ends with a stray sign is that sign. -/
theorem Lexeme.Spells.of_getLast? {t : Lexeme} (h : t.Spells q cs) (full : t ≠ .torn) {c : Char}
    (hlast : cs.getLast? = some c) (hblank : Text.isBlank c = false)
    (hmarks : c ∉ ['(', ')', '?', '$', q]) (hnumber : inNumber c = false) (hsign : isSign c = false) :
    (c = '\'' ∧ ∃ body, t = .literal body) ∨ (c ≠ '\'' ∧ t = .sign [c]) := by
  have last {p : Char → Bool} (hp : p c = false) (hcs : ∀ d ∈ cs, p d = true) : False := by
    rw [hcs c (List.mem_of_getLast? hlast)] at hp
    cases hp
  have hword : inWord c = false := by
    rw [inNumber, Bool.or_eq_false_iff] at hnumber
    exact hnumber.1
  cases h with
  | blank h => exact (last hblank (by simpa using h)).elim
  | opened | closed =>
    obtain rfl := Option.some.inj hlast
    simp at hmarks
  | @param index digits d hd h =>
    refine (last (p := fun c => inNumber c || c = '?' || c = '$') ?_ ?_).elim
    · simp_all
    · refine List.forall_mem_cons.mpr ⟨by rcases hd with rfl | rfl <;> rfl, fun d hd => ?_⟩
      simp [inNumber, inWord, Char.isAlphanum, h d hd]
  | literal =>
    rw [getLast?_quoted, Option.some.injEq] at hlast
    exact .inl ⟨hlast.symm, _, rfl⟩
  | name =>
    rw [getLast?_quoted, Option.some.injEq] at hlast
    simp [hlast] at hmarks
  | number h => exact (last hnumber h).elim
  | word h => exact (last hword h).elim
  | relation h => exact (last hsign h).elim
  | @sign d h =>
    obtain rfl : d = c := by simpa using hlast
    exact .inr ⟨h.2.2.2, rfl⟩
  | torn => exact absurd rfl full

end Characters

section Shapes

variable {q : Char} {rank : Nat} {cs : List Char}

/-- Without a torn quotation the last lexeme of a text is known from its last character. -/
theorem exists_lexemes_eq_append (whole : .torn ∉ lexemes q rank cs) {c : Char}
    (hlast : cs.getLast? = some c) (hblank : Text.isBlank c = false)
    (hmarks : c ∉ ['(', ')', '?', '$', q]) (hnumber : inNumber c = false) (hsign : isSign c = false) :
    ∃ before t, lexemes q rank cs = before ++ [t] ∧
      ((c = '\'' ∧ ∃ body, t = .literal body) ∨ (c ≠ '\'' ∧ t = .sign [c])) := by
  obtain ⟨before, t, piece, hends, hp, hpiece⟩ := (spelled_lexemes q rank cs).exists_getLast hlast
  have full : t ≠ .torn := by
    rintro rfl
    exact whole (by rw [hends]; simp)
  exact ⟨before, t, hends, hp.of_getLast? full hpiece hblank hmarks hnumber hsign⟩

theorem lexemes_of_isKeyword (hq : q = '\x60' ∨ q = '"') (h : Atom.isKeyword cs = true) :
    lexemes q rank cs = [.word cs] := by
  have letters : ∀ k ∈ Atom.keywords,
      (k.toList ≠ [] && k.toList.all fun c => c.isUpper || c = '_') = true :=
    List.all_eq_true.mp (by decide)
  have word (c : Char) (hc : (c.toUpper.isUpper || c.toUpper = '_') = true) :
      Column.startsWord c = true := by
    by_cases hl : c.isLower = true
    · simp [Column.startsWord, Char.isAlpha, hl]
    · have : c.toUpper = c := by
        simp only [Char.isLower, Bool.and_eq_true, decide_eq_true_eq] at hl
        rw [Char.toUpper, dif_neg hl]
      rw [this] at hc
      simp only [Bool.or_eq_true, decide_eq_true_eq] at hc
      rcases hc with hc | hc <;> simp [Column.startsWord, Char.isAlpha, hc]
  rw [Atom.isKeyword, List.contains_iff_mem] at h
  have here := letters _ h
  rw [String.toList_ofList, Bool.and_eq_true, decide_eq_true_eq, List.all_eq_true] at here
  obtain ⟨full, hk⟩ := here
  have starts : ∀ c ∈ cs, Column.startsWord c = true := fun c hc =>
    word c (hk _ (List.mem_map_of_mem hc))
  cases cs with
  | nil => exact absurd rfl full
  | cons c cs =>
    obtain ⟨hc, hcs⟩ := List.forall_mem_cons.mp starts
    have within : ∀ d ∈ cs, inWord d = true := fun d hd => by
      have := hcs d hd
      simp only [Column.startsWord, decide_eq_true_eq] at this
      rcases this with h | h <;> simp [inWord, Char.isAlphanum, h]
    have whole : lexemes q rank (c :: cs ++ []) = .word (c :: cs) :: lexemes q rank [] :=
      lexemes_word hq hc within (by simp)
    rwa [List.append_nil, lexemes_nil] at whole

/-- Digits and points are one number if the first of them is a digit or comes before one. -/
theorem lexemes_number (hq : q = '\x60' ∨ q = '"') {c : Char}
    (hc : c.isDigit = true ∨ c = '.' ∧ startsWithDigit cs = true)
    (hcs : ∀ d ∈ cs, inNumber d = true) : lexemes q rank (c :: cs) = [.number (c :: cs)] := by
  have other (d : Char) (hd : d.isDigit = false ∧ d ≠ '.') : c ≠ d := fun e => by
    subst e
    rcases hc with hc | hc
    · rw [hd.1] at hc; cases hc
    · exact hd.2 hc.1
  have unblank : Text.isBlank c = false := by
    refine Bool.eq_false_iff.mpr fun hb => ?_
    have nondigits : ∀ d ∈ Text.blanks, (!d.isDigit && d ≠ '.') = true :=
      List.all_eq_true.mp (by decide)
    have here := nondigits c (by simpa [Text.isBlank] using hb)
    exact other c (by simpa using here) rfl
  have hq' : c ≠ q := by rcases hq with rfl | rfl <;> exact other _ (by decide)
  have taken : cs.takeWhile inNumber = cs := List.takeWhile_eq_self_iff.mpr hcs
  have dropped : cs.dropWhile inNumber = [] := List.dropWhile_eq_nil_iff.mpr hcs
  rw [lexemes, cut, if_neg (by simp [unblank]), if_neg (other '(' (by decide)),
    if_neg (other ')' (by decide)), if_neg (other '?' (by decide)),
    if_neg (other '\'' (by decide)), if_neg hq', if_neg fun hn => other '$' (by decide) hn.1,
    if_pos hc, taken, dropped, lexemes_nil]

/-- Digits, or digits that may be missing and places after a point. -/
inductive IsUnsigned : List Char → Prop where
  | whole {c : Char} {digits : List Char} (h : ∀ d ∈ c :: digits, d.isDigit = true) :
      IsUnsigned (c :: digits)
  | places {digits : List Char} {c : Char} {places : List Char} (h : ∀ d ∈ digits, d.isDigit = true)
      (hplaces : ∀ d ∈ c :: places, d.isDigit = true) : IsUnsigned (digits ++ '.' :: c :: places)

theorem isUnsigned_of_isNumeral (h : Atom.isNumeral cs = true) :
    IsUnsigned cs ∨ ∃ ds, cs = '-' :: ds ∧ IsUnsigned ds := by
  unfold Atom.isNumeral at h
  extract_lets body at h
  have parts : body.takeWhile Char.isDigit ++ body.dropWhile Char.isDigit = body :=
    List.takeWhile_append_dropWhile
  have lead : ∀ d ∈ body.takeWhile Char.isDigit, d.isDigit = true := fun d hd =>
    List.mem_takeWhile_imp hd
  have unsigned : IsUnsigned body := by
    split at h
    · rename_i hrest
      rw [hrest, List.append_nil] at parts
      rw [parts] at lead
      cases hbody : body with
      | nil => rw [hbody] at h; cases h
      | cons c cs => exact .whole (hbody ▸ lead)
    · rename_i places hrest
      rw [hrest] at parts
      rw [Bool.and_eq_true, Bool.not_eq_true', List.all_eq_true] at h
      cases places with
      | nil => cases h.1
      | cons c places => exact parts ▸ .places lead h.2
    · cases h
  by_cases hminus : cs.head? = some '-'
  · obtain ⟨ds, rfl⟩ := List.head?_eq_some_iff.mp hminus
    have signed : body = ds := if_pos hminus
    exact .inr ⟨ds, rfl, signed ▸ unsigned⟩
  · have bare : body = cs := if_neg hminus
    exact .inl (bare ▸ unsigned)

theorem lexemes_of_isUnsigned (hq : q = '\x60' ∨ q = '"') (h : IsUnsigned cs) :
    lexemes q rank cs = [.number cs] := by
  have number {d : Char} (hd : d.isDigit = true) : inNumber d = true := by
    simp [inNumber, inWord, Char.isAlphanum, hd]
  cases h with
  | whole h =>
    obtain ⟨hc, hcs⟩ := List.forall_mem_cons.mp h
    exact lexemes_number hq (.inl hc) fun d hd => number (hcs d hd)
  | @places digits c places h hplaces =>
    cases digits with
    | nil =>
      refine lexemes_number hq (.inr ⟨rfl, ?_⟩) fun d hd => number (hplaces d hd)
      simp [startsWithDigit, hplaces c List.mem_cons_self]
    | cons e es =>
      obtain ⟨he, hes⟩ := List.forall_mem_cons.mp h
      refine lexemes_number hq (.inl he) (List.forall_mem_append.mpr ?_)
      refine ⟨fun d hd => number (hes d hd), ?_⟩
      exact List.forall_mem_cons.mpr ⟨rfl, fun d hd => number (hplaces d hd)⟩

theorem lexemes_of_isNumeral (hq : q = '\x60' ∨ q = '"') (h : Atom.isNumeral cs = true) :
    lexemes q rank cs = [.number cs] ∨
      ∃ ds, lexemes q rank cs = [.sign ['-'], .number ds] := by
  rcases isUnsigned_of_isNumeral h with hcs | ⟨ds, rfl, hds⟩
  · exact .inl (lexemes_of_isUnsigned hq hcs)
  · exact .inr ⟨ds, by rw [lexemes_stray hq (by simp), lexemes_of_isUnsigned hq hds]⟩

theorem quoted_of_afterQuotedWord? {rest : List Char}
    (h : Atom.afterQuotedWord? q cs = some rest) :
    ∃ word, cs = Text.quoted q word ++ rest ∧ word ≠ [] ∧ word.all Atom.isWordCharacter = true := by
  cases cs with
  | nil => cases h
  | cons c cs =>
    rw [Atom.afterQuotedWord?] at h
    split at h
    · cases h
    · rename_i d rest' hdrop
      split at h
      · rename_i hc
        obtain rfl := Option.some.inj h
        have others : q ∉ cs.takeWhile (· ≠ q) := fun hmem => by
          have := List.mem_takeWhile_imp hmem
          simp at this
        have hd : d = q := by
          have := List.head?_dropWhile_not (· ≠ q) cs
          rw [hdrop] at this
          simpa using this
        refine ⟨cs.takeWhile (· ≠ q), ?_, hc.2⟩
        have parts : cs.takeWhile (· ≠ q) ++ cs.dropWhile (· ≠ q) = cs :=
          List.takeWhile_append_dropWhile
        rw [hdrop, hd] at parts
        rw [Text.quoted, Text.doubled_of_not_mem others, hc.1, List.cons_append, List.append_assoc,
          List.singleton_append, parts]
      · cases h

theorem lexemes_of_isReference (hq : q = '\x60' ∨ q = '"') (h : Atom.isReference q cs = true) :
    (∃ a, lexemes q rank cs = [.name a]) ∨ ∃ a b, lexemes q rank cs = [.name a, point, .name b] := by
  unfold Atom.isReference at h
  split at h
  · cases h
  · rename_i hw
    obtain ⟨a, rfl, -⟩ := quoted_of_afterQuotedWord? hw
    exact .inl ⟨a, by rw [lexemes_quoted hq a (by simp), lexemes_nil]⟩
  · rename_i rest hw
    obtain ⟨a, rfl, -⟩ := quoted_of_afterQuotedWord? hw
    obtain ⟨b, rfl, -⟩ := quoted_of_afterQuotedWord? (of_decide_eq_true h)
    have undigit : startsWithDigit (Text.quoted q b ++ []) = false := by
      rcases hq with rfl | rfl <;> rfl
    have apart : ('.' :: (Text.quoted q b ++ [])).head? ≠ some q := by
      rcases hq with rfl | rfl <;> simp
    exact .inr ⟨a, b, by
      rw [lexemes_quoted hq a apart, lexemes_point hq undigit, lexemes_quoted hq b (by simp),
        lexemes_nil, point]⟩
  · cases h

theorem lexemes_of_isCall (hq : q = '\x60' ∨ q = '"') (h : Atom.isCall cs = true) :
    ∃ word ds, Atom.isGroup ds = true ∧ lexemes q rank cs = .word word :: lexemes q rank ds := by
  rw [Atom.isCall, Bool.and_eq_true, Bool.not_eq_true'] at h
  obtain ⟨full, hgroup⟩ := h
  refine ⟨cs.takeWhile (fun c => c.isUpper || c = '_'), _, hgroup, ?_⟩
  have parts : cs.takeWhile (fun c => c.isUpper || c = '_') ++
      cs.dropWhile (fun c => c.isUpper || c = '_') = cs := List.takeWhile_append_dropWhile
  have letters : ∀ c ∈ cs.takeWhile (fun c => c.isUpper || c = '_'), (c.isUpper || c = '_') = true :=
    fun c hc => List.mem_takeWhile_imp (p := fun c => c.isUpper || c = '_') hc
  cases hw : cs.takeWhile (fun c => c.isUpper || c = '_') with
  | nil => rw [hw] at full; cases full
  | cons c word =>
    rw [hw] at parts letters
    obtain ⟨hc, hword⟩ := List.forall_mem_cons.mp letters
    simp only [Bool.or_eq_true, decide_eq_true_eq] at hc hword
    have starts : Column.startsWord c = true := by
      rcases hc with hc | hc <;> simp [Column.startsWord, Char.isAlpha, hc]
    have within : ∀ d ∈ word, inWord d = true := fun d hd => by
      rcases hword d hd with h | h <;> simp [inWord, Char.isAlphanum, Char.isAlpha, h]
    have stop : ∀ d ∈ (cs.dropWhile (fun c => c.isUpper || c = '_')).head?, inWord d = false := by
      intro d hd
      cases hds : cs.dropWhile (fun c => c.isUpper || c = '_') with
      | nil => rw [hds] at hd; cases hd
      | cons e ds =>
        rw [hds] at hd hgroup
        obtain rfl := Option.some.inj hd
        have : e = '(' := by
          unfold Atom.isGroup at hgroup
          split at hgroup
          · rename_i h; exact (List.cons.inj h).1
          · cases hgroup
        rw [this]
        rfl
    calc lexemes q rank cs
        = lexemes q rank (c :: word ++ cs.dropWhile (fun c => c.isUpper || c = '_')) := by rw [parts]
      _ = _ := lexemes_word hq starts within stop

/-- A text that passes for one group is one, or is closed early and has a bracket in quotes. -/
theorem lexemes_of_isGroup (hq : q = '\x60' ∨ q = '"') (h : Atom.isGroup cs = true)
    (balanced : IsBalanced (lexemes q rank cs)) :
    IsGroup (lexemes q rank cs) ∨ ∃ inner rest,
      lexemes q rank cs = .opened :: inner ++ .closed :: rest ∧ IsBalanced inner ∧
        (∃ t ∈ inner, t.hidesBracket = true) ∧ rest ≠ [] := by
  have spelled := spelled_lexemes q rank cs
  obtain ⟨ds, rfl⟩ : ∃ ds, cs = '(' :: ds := by
    unfold Atom.isGroup at h
    split at h
    · exact ⟨_, rfl⟩
    · cases h
  rw [lexemes_opened] at spelled balanced ⊢
  rw [IsBalanced, brackets_opened] at balanced
  obtain ⟨inner, rest, hparts, hinner, -⟩ := exists_closing balanced
  rw [hparts, ← List.cons_append] at spelled ⊢
  by_cases hrest : rest = []
  · subst hrest
    exact .inl (.intro hinner)
  · refine .inr ⟨inner, rest, rfl, hinner, ?_, hrest⟩
    by_contra quiet
    have := spelled.isGroup_eq_false hq hinner (fun t ht => by
      by_contra hb
      exact quiet ⟨t, ht, by simpa using hb⟩) hrest
    rw [this] at h
    cases h

theorem lexemes_of_isString (hq : q = '\x60' ∨ q = '"') (h : Atom.isString cs = true)
    (whole : .torn ∉ lexemes q rank cs) :
    (∃ a, lexemes q rank cs = [.literal a]) ∨
      ∃ a ts b, lexemes q rank cs = .literal a :: ts ++ [.literal b] := by
  unfold Atom.isString at h
  split at h
  case h_2 => cases h
  case h_1 cs =>
    have hlast : ('\'' :: cs).getLast? = some '\'' := by
      rw [List.getLast?_cons, of_decide_eq_true h]
      rfl
    obtain ⟨a, ts, hts⟩ : ∃ a ts, lexemes q rank ('\'' :: cs) = .literal a :: ts := by
      rw [lexemes] at whole ⊢
      cases hbody : quotation? '\'' cs with
      | none => simp [cut, hbody, Text.isBlank, Text.blanks] at whole
      | some p => exact ⟨p.1, _, by simp [cut, hbody, Text.isBlank, Text.blanks]; rfl⟩
    rcases exists_lexemes_eq_append whole hlast rfl (by rcases hq with rfl | rfl <;> decide) rfl
      rfl with ⟨before, t, hends, ⟨-, b, rfl⟩ | ⟨h, -⟩⟩
    · cases before with
      | nil => exact .inl ⟨b, hends⟩
      | cons u before =>
        rw [hts] at hends
        obtain ⟨rfl, rfl⟩ := List.cons.inj hends
        exact .inr ⟨a, before, b, hts⟩
    · exact absurd rfl h

theorem getLast?_of_isStar (h : Atom.isStar cs = true) : cs.getLast? = some '*' := by
  rw [Atom.isStar, Bool.or_eq_true, decide_eq_true_eq] at h
  rcases h with rfl | h
  · rfl
  · obtain ⟨before, rfl⟩ := List.isSuffixOf_iff_suffix.mp h
    simp

theorem lexemes_of_isStar (hq : q = '\x60' ∨ q = '"') (h : Atom.isStar cs = true)
    (whole : .torn ∉ lexemes q rank cs) : ∃ ts, lexemes q rank cs = ts ++ [star] := by
  rcases exists_lexemes_eq_append whole (getLast?_of_isStar h) rfl
    (by rcases hq with rfl | rfl <;> decide) rfl rfl with ⟨before, t, hends, ⟨h, -⟩ | ⟨-, rfl⟩⟩
  · cases h
  · exact ⟨before, hends⟩

end Shapes

section Reading

variable {ts us : List Lexeme}

theorem IsDotted.isName_or_point (h : IsDotted ts) : ∀ t ∈ ts, t.isName = true ∨ t = point := by
  induction h with
  | single h => exact List.forall_mem_singleton.mpr (.inl h)
  | cons h rest ih => exact List.forall_mem_cons.mpr ⟨.inl h, List.forall_mem_cons.mpr ⟨.inr rfl, ih⟩⟩

theorem IsDotted.isName_getLast (h : IsDotted ts) : ∀ t ∈ ts.getLast?, t.isName = true := by
  induction h with
  | single h => simpa using h
  | @cons t ts h rest ih =>
    cases rest with
    | single h => simpa using h
    | cons h rest => simpa [List.getLast?_cons_cons] using ih

theorem IsGroup.getLast? (h : IsGroup ts) : ts.getLast? = some .closed := by
  cases h
  exact List.getLast?_concat

/-- What comes after the bracket that closes a group does not belong to it. -/
theorem IsGroup.eq_nil_of_closing {inner rest : List Lexeme}
    (h : IsGroup (.opened :: inner ++ .closed :: rest)) (balanced : IsBalanced inner) : rest = [] := by
  generalize hts : Lexeme.opened :: inner ++ .closed :: rest = ts at h
  obtain ⟨hinner⟩ := h
  rename_i inner'
  rcases List.eq_nil_or_concat rest with rfl | ⟨rest, t, rfl⟩
  · rfl
  · rw [List.concat_eq_append, List.cons_append, List.cons_append, List.cons.injEq,
      ← List.cons_append, ← List.append_assoc] at hts
    obtain ⟨rfl, -⟩ := List.append_inj' hts.2 rfl
    rw [IsBalanced, brackets_append_of_some balanced, brackets_closed_zero] at hinner
    cases hinner

theorem IsPrimary.head (h : IsPrimary ts) (a : List Char) (hts : ts.head? = some (.literal a)) :
    ts = [.literal a] := by
  cases h with
  | single h => rw [List.head?_singleton, Option.some.injEq] at hts; rw [hts]
  | negative => cases hts
  | dotted h => cases h <;> simp_all [Lexeme.isName]
  | star => cases hts
  | dottedStar h => cases h <;> simp_all [Lexeme.isName]
  | group h => cases h; cases hts
  | call => cases hts

/-- No text that is misread is one operand. -/
theorem IsMisread.not_isPrimary (h : IsMisread ts) : ¬IsPrimary ts := by
  intro hp
  cases h with
  | literals a b us => simpa using hp.head a rfl
  | @star us full h =>
    -- of the shapes of an operand only a star and a dotted star end with a star
    generalize hts : us ++ [Sql.star] = ts at hp
    have last : ts.getLast? = some Sql.star := by rw [← hts]; simp
    cases hp with
    | single hs =>
      obtain rfl := Option.some.inj last
      cases hs
    | negative cs => cases last
    | dotted hd => cases hd.isName_getLast _ last
    | star =>
      have := congrArg List.length hts
      simp [full] at this
    | @dottedStar vs hd =>
      rw [show vs ++ [point, Sql.star] = vs ++ [point] ++ [Sql.star] by simp] at hts
      exact h vs hd (List.append_cancel_right hts)
    | group hg => rw [hg.getLast?] at last; cases last
    | call cs hg =>
      rw [List.getLast?_cons, hg.getLast?] at last
      cases last
  | @group lead inner rest hlead balanced hides more =>
    -- a group or a call would end where its first bracket is closed
    generalize hts : lead ++ (.opened :: inner ++ .closed :: rest) = ts at hp
    have mem : Lexeme.opened ∈ ts := by rw [← hts]; simp
    have long : 3 ≤ ts.length := by
      obtain ⟨t, rest, rfl⟩ := List.exists_cons_of_ne_nil more
      rw [← hts]
      simp only [List.length_append, List.length_cons]
      omega
    cases hp with
    | single | negative | star => simp at long
    | dotted hd => rcases hd.isName_or_point _ mem with h | h <;> cases h
    | dottedStar hd =>
      rcases List.mem_append.mp mem with h | h
      · rcases hd.isName_or_point _ h with h | h <;> cases h
      · simp [point, Sql.star] at h
    | group hg =>
      rcases hlead with rfl | ⟨cs, rfl⟩
      · rw [List.nil_append] at hts
        exact more ((hts ▸ hg).eq_nil_of_closing balanced)
      · cases hg
        cases hts
    | call cs hg =>
      rcases hlead with rfl | ⟨cs', rfl⟩
      · cases hts
      · rw [List.singleton_append, List.cons.injEq] at hts
        exact more ((hts.2 ▸ hg).eq_nil_of_closing balanced)

/-- A text that passes for atomic is one operand or one of those that are misread. -/
theorem isPrimary_or_isMisread {q : Char} (hq : q = '\x60' ∨ q = '"') {params rank : Nat}
    {cs : List Char} (whole : .torn ∉ lexemes q rank cs) (balanced : IsBalanced (lexemes q rank cs))
    (h : Atom.isAtomic q params cs = true) :
    cs = [] ∨ IsPrimary (lexemes q rank cs) ∨ IsMisread (lexemes q rank cs) := by
  simp only [Atom.isAtomic, Bool.or_eq_true, Bool.and_eq_true, decide_eq_true_eq] at h
  -- in the order of `Atom.isAtomic`; only groups, calls, strings and stars can be misread
  rcases h with (((((((h | h) | h) | h) | h) | h) | h) | h) | h
  · exact .inl (List.isEmpty_iff.mp h)
  · right; left
    rcases lexemes_of_isReference hq h with ⟨a, ha⟩ | ⟨a, b, hab⟩
    · exact ha ▸ .dotted (.single rfl)
    · exact hab ▸ .dotted (.cons rfl (.single rfl))
  · obtain ⟨word, ds, hgroup, hts⟩ := lexemes_of_isCall hq h
    rw [hts] at balanced ⊢
    rcases lexemes_of_isGroup hq hgroup balanced with hg | ⟨inner, rest, hts, hinner, hides, more⟩
    · exact .inr (.inl (.call word hg))
    · exact .inr (.inr (hts ▸ .group (.inr ⟨word, rfl⟩) hinner hides more))
  · rw [h.1, lexemes_mark, lexemes_nil]
    exact .inr (.inl (.single rfl))
  · rcases lexemes_of_isGroup hq h balanced with hg | ⟨inner, rest, hts, hinner, hides, more⟩
    · exact .inr (.inl (.group hg))
    · exact .inr (.inr (hts ▸ .group (.inl rfl) hinner hides more))
  · rw [lexemes_of_isKeyword hq h]
    exact .inr (.inl (.single rfl))
  · right; left
    obtain hn | ⟨ds, hn⟩ : lexemes q rank cs = [.number cs] ∨
        ∃ ds, lexemes q rank cs = [.sign ['-'], .number ds] := lexemes_of_isNumeral hq h
    · exact hn ▸ .single rfl
    · exact hn ▸ .negative ds
  · rcases lexemes_of_isString hq h whole with ⟨a, ha⟩ | ⟨a, ts, b, hab⟩
    · exact .inr (.inl (ha ▸ .single rfl))
    · exact .inr (.inr (hab ▸ .literals a b ts))
  · obtain ⟨ts, hts⟩ := lexemes_of_isStar hq h whole
    rw [hts]
    by_cases full : ts = []
    · rw [full]
      exact .inr (.inl .star)
    · by_cases hd : ∃ us, IsDotted us ∧ ts = us ++ [point]
      · obtain ⟨us, hus, rfl⟩ := hd
        rw [List.append_assoc]
        exact .inr (.inl (.dottedStar hus))
      · exact .inr (.inr (.star full fun us hus e => hd ⟨us, hus, e⟩))

end Reading

end Sql

open Sql (lexemes IsBalanced IsPrimary IsMisread)

/-- In each dialect a text of whole lexemes with balanced brackets that passes for atomic is empty or
one operand, unless it is one of those that are misread; and these are neither. -/
theorem isPrimary_iff_not_isMisread {d : Dialect} (hd : d ∈ [Dialect.mysql, .postgres, .sqlite])
    {params : Nat} {cs : List Char} (whole : .torn ∉ lexemes d.quote 0 cs)
    (balanced : IsBalanced (lexemes d.quote 0 cs)) (h : Atom.isAtomic d.quote params cs = true) :
    cs = [] ∨ IsPrimary (lexemes d.quote 0 cs) ↔ ¬IsMisread (lexemes d.quote 0 cs) := by
  have kinds := Sql.isPrimary_or_isMisread (Sql.isLegible_of_mem hd).quote whole balanced h
  constructor
  · rintro (rfl | hp) hm
    · rw [Sql.lexemes_nil] at hm
      generalize hts : ([] : List Sql.Lexeme) = ts at hm
      cases hm <;> simp at hts
    · exact hm.not_isPrimary hp
  · exact fun hm => kinds.imp_right fun h => h.resolve_right hm

/-- A call with a compound argument passes for atomic, and it is one operand. -/
theorem not_isMisread_call :
    ∃ cs, cs = "COUNT((\x60a\x60 + ?) * 2)".toList ∧ .torn ∉ lexemes Dialect.mysql.quote 0 cs ∧
      IsBalanced (lexemes Dialect.mysql.quote 0 cs) ∧
      Atom.isAtomic Dialect.mysql.quote 1 cs = true ∧
      ¬IsMisread (lexemes Dialect.mysql.quote 0 cs) := by
  refine ⟨_, rfl, ?_⟩
  have hts : lexemes Dialect.mysql.quote 0 "COUNT((\x60a\x60 + ?) * 2)".toList =
      .word "COUNT".toList :: (.opened :: [.opened, .name ['a'], .blank ' ', .sign ['+'], .blank ' ',
        .param 0, .closed, .blank ' ', .sign ['*'], .blank ' ', .number ['2']] ++ [.closed]) := by
    cbv
  have whole : .torn ∉ lexemes Dialect.mysql.quote 0 "COUNT((\x60a\x60 + ?) * 2)".toList := by
    rw [hts]
    decide
  have balanced : IsBalanced (lexemes Dialect.mysql.quote 0 "COUNT((\x60a\x60 + ?) * 2)".toList) := by
    rw [hts]
    decide
  have atomic : Atom.isAtomic Dialect.mysql.quote 1 "COUNT((\x60a\x60 + ?) * 2)".toList = true := by
    decide +kernel
  refine ⟨whole, balanced, atomic,
    (isPrimary_iff_not_isMisread (d := .mysql) (by simp) whole balanced atomic).mp (.inr ?_)⟩
  rw [hts]
  exact .call _ (.intro (by decide))

/-- Two literals with a word between them pass for one operand, so a template takes them without
brackets and the word after them takes the second of them. -/
theorem isAtomic_two_literals :
    ∃ cs, cs = "'a' OR 'b'".toList ∧ .torn ∉ lexemes Dialect.mysql.quote 0 cs ∧
      IsBalanced (lexemes Dialect.mysql.quote 0 cs) ∧
      Atom.isAtomic Dialect.mysql.quote 0 cs = true ∧
      ¬(cs = [] ∨ IsPrimary (lexemes Dialect.mysql.quote 0 cs)) ∧
      ((Expr.template "? AND c" [.expr (.template "'a' OR 'b'" [] false)] false).statement
        .mysql).sql = "'a' OR 'b' AND c".toList := by
  refine ⟨_, rfl, ?_⟩
  have hts : lexemes Dialect.mysql.quote 0 "'a' OR 'b'".toList =
      .literal ['a'] :: [.blank ' ', .word ['O', 'R'], .blank ' '] ++ [.literal ['b']] := by cbv
  have compound : ¬IsPrimary (lexemes Dialect.mysql.quote 0 "'a' OR 'b'".toList) := by
    rw [hts]
    exact (IsMisread.literals ['a'] ['b'] _).not_isPrimary
  refine ⟨?_, ?_, by decide +kernel, not_or.mpr ⟨by decide, compound⟩, by cbv⟩
  · rw [hts]
    decide
  · rw [hts]
    decide

end SqlClause
