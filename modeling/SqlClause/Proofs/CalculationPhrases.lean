import SqlClause.Proofs.CalculationGrammar

/-! # Phrases of calculations

A phrase is a fragment whose text is cut into known lexemes wherever its parameters stand. Phrases are
put together as fragments are, and the forms of calculations are read from them: what is bracketed, a
call, a case or atomic is one operand, and an operator joins two operands. -/

namespace SqlClause

open Sql (Lexeme lexemes Apart Reads Place IsPrimary IsMisread IsBalanced)

namespace Sql

def Lexeme.isBlank : Lexeme → Bool
  | .blank _ => true
  | _ => false

def unblanked (ts : List Lexeme) : List Lexeme := ts.filter (!·.isBlank)

/-- The lexemes of calculations: no literals, no numbers, and no brackets in the quotes of names. -/
def Lexeme.isPlain : Lexeme → Bool
  | .blank _ | .word _ | .param _ | .opened | .closed | .sign _ => true
  | .name cs => !(Lexeme.name cs).hidesBracket
  | .number _ | .literal _ | .torn => false

/-- Texts for the places of parameters that are read as those parameters. -/
def IsMark (q : Char) (mark : Nat → List Char) : Prop :=
  ∀ rank rest, Apart rest →
    lexemes q rank (mark rank ++ rest) = .param rank :: lexemes q (rank + 1) rest

theorem isMark_question (q : Char) : IsMark q fun _ => ['?'] := fun _ _ _ => lexemes_mark

@[simp] theorem unblanked_nil : unblanked [] = [] := rfl

@[simp] theorem unblanked_append (ts us : List Lexeme) :
    unblanked (ts ++ us) = unblanked ts ++ unblanked us := List.filter_append _ _

theorem unblanked_cons (t : Lexeme) (ts : List Lexeme) :
    unblanked (t :: ts) = if t.isBlank then unblanked ts else t :: unblanked ts := by
  rw [unblanked, List.filter_cons]
  cases t.isBlank <;> rfl

theorem brackets_unblanked (n : Nat) (ts : List Lexeme) :
    brackets n (unblanked ts) = brackets n ts := by
  induction ts generalizing n with
  | nil => rfl
  | cons t ts ih =>
    rw [unblanked_cons]
    cases t with
    | blank c => rw [Lexeme.isBlank, if_pos rfl, ih, brackets_of_stays rfl]
    | opened => exact (brackets_opened.trans (ih _)).trans brackets_opened.symm
    | closed =>
      cases n with
      | zero => exact brackets_closed_zero.trans brackets_closed_zero.symm
      | succ n => exact (brackets_closed_succ.trans (ih _)).trans brackets_closed_succ.symm
    | _ => exact (brackets_of_stays rfl).trans ((ih n).trans (brackets_of_stays rfl).symm)

section Primary

variable {vs : List Value} {ts us ws : List Lexeme} {t : Lexeme} {a : Arg}

theorem IsGroup.unblanked (h : IsGroup ts) : IsGroup (unblanked ts) := by
  obtain ⟨h⟩ := h
  rename_i inner
  have parts : Sql.unblanked (.opened :: inner ++ [.closed]) =
      .opened :: Sql.unblanked inner ++ [.closed] := by
    rw [unblanked_append]
    rfl
  rw [parts]
  exact .intro ((brackets_unblanked 0 inner).trans h)

/-- A group does not start with a shorter text of its own. -/
theorem IsGroup.eq_nil_of_append (h : IsGroup (ts ++ t :: us)) (hts : IsBalanced ts) : ts = [] := by
  by_contra full
  obtain ⟨x, xs, rfl⟩ := List.exists_cons_of_ne_nil full
  obtain rfl : x = .opened := by
    generalize hws : x :: xs ++ t :: us = ws at h
    cases h
    exact (List.cons.inj hws).1
  rw [IsBalanced, brackets_opened] at hts
  obtain ⟨inner, rest, rfl, hinner, -⟩ := exists_closing hts
  have closed : IsGroup (.opened :: inner ++ .closed :: (rest ++ t :: us)) := by simpa using h
  have := closed.eq_nil_of_closing hinner
  simp at this

theorem IsDotted.unblanked (h : IsDotted ts) : unblanked ts = ts := by
  refine List.filter_eq_self.mpr fun t ht => ?_
  rcases h.isName_or_point t ht with h | rfl
  · cases t <;> first | rfl | cases h
  · rfl

/-- In a dotted name a name follows a point. -/
theorem IsDotted.getLast_of_append (h : IsDotted (ts ++ t :: us)) (ht : t.isName = true)
    (full : ts ≠ []) : ts.getLast? = some point := by
  generalize hws : ts ++ t :: us = ws at h
  induction h generalizing ts with
  | single h =>
    cases ts with
    | nil => exact absurd rfl full
    | cons x ts => simp at hws
  | @cons x ws h rest ih =>
    match ts, full with
    | [y], _ =>
      obtain ⟨-, hws⟩ := List.cons.inj hws
      rw [(List.cons.inj hws).1] at ht
      cases ht
    | [y, z], _ =>
      obtain ⟨-, hws⟩ := List.cons.inj hws
      rw [(List.cons.inj hws).1]
      rfl
    | y :: z :: w :: ts, _ =>
      obtain ⟨-, hws⟩ := List.cons.inj hws
      rw [List.getLast?_cons_cons, List.getLast?_cons_cons]
      exact ih (by simp) (List.cons.inj hws).2

theorem Reads.ne_word {tight : Bool} {f : List Char} (h : Reads tight vs .primary [.word f] a) :
    False := by
  generalize hts : [Lexeme.word f] = ts at h
  cases h with
  | caseOf hs ht => exact hs.ne_nil (List.append_eq_nil_iff.mp (List.cons.inj hts).2.symm).1
  | searched ht => exact ht.ne_nil (List.cons.inj hts).2.symm
  | _ => simp at hts

/-- One operand is no negation: a negative number is not among the lexemes of calculations. -/
theorem IsPrimary.unblanked_ne_negative (hp : IsPrimary ts) (plain : ∀ t ∈ ts, t.isPlain = true) :
    unblanked ts ≠ .sign ['-'] :: us := by
  intro hws
  cases hp with
  | @single t hs => cases t <;> cases hs <;> cases hws
  | negative cs => cases plain _ (List.mem_cons_of_mem _ List.mem_cons_self)
  | dotted hd =>
    rw [hd.unblanked] at hws
    subst hws
    rcases hd.isName_or_point _ List.mem_cons_self with h | h <;> cases h
  | star => cases hws
  | dottedStar hd =>
    cases hd with
    | @single t hs => cases t <;> cases hs <;> cases hws
    | @cons t us hs rest => cases t <;> cases hs <;> cases hws
  | group hg =>
    have := hg.unblanked
    rw [hws] at this
    cases this
  | call cs hg => cases hws

/-- One operand does not start with another one and an operator after it. -/
theorem IsPrimary.unblanked_ne_binary {op : Binary} (hp : IsPrimary ts)
    (plain : ∀ t ∈ ts, t.isPlain = true) (h : Reads true vs .primary ws a)
    (last : ∀ t ∈ (ws ++ op.lexeme :: us).getLast?, t.isEnd = true) :
    unblanked ts ≠ ws ++ op.lexeme :: us := by
  have notName : op.lexeme ≠ point := by rcases op with op | op <;> cases op <;> decide
  intro hws
  rw [← hws] at last
  cases hp with
  | @single t hs =>
    have short : (unblanked [t]).length ≤ 1 := List.length_filter_le _ _
    have := List.length_pos_iff.mpr h.ne_nil
    rw [hws] at short
    simp at short
    omega
  | negative cs => cases plain _ (List.mem_cons_of_mem _ List.mem_cons_self)
  | dotted hd =>
    -- the operator would be a name with a point before it, and no operand ends with a point
    rw [hd.unblanked] at hws
    subst hws
    have hop : op.lexeme.isName = true :=
      (hd.isName_or_point op.lexeme (by simp)).resolve_right notName
    have := h.isEnd_getLast _ (hd.getLast_of_append hop h.ne_nil)
    cases this
  | star => cases last _ rfl
  | @dottedStar us hd =>
    have ends : (unblanked (us ++ [point, Sql.star])).getLast? = some Sql.star := by
      have two : unblanked [point, Sql.star] = [point] ++ [Sql.star] := rfl
      rw [unblanked_append, two, ← List.append_assoc, List.getLast?_concat]
    cases last _ ends
  | group hg =>
    have := hg.unblanked
    rw [hws] at this
    exact h.ne_nil (this.eq_nil_of_append h.isBalanced)
  | @call cs us hg =>
    have word : unblanked (.word cs :: us) = .word cs :: unblanked us := rfl
    rw [word] at hws
    cases ws with
    | nil => exact h.ne_nil rfl
    | cons l ls =>
      obtain ⟨rfl, htail⟩ := List.cons.inj hws
      have := hg.unblanked
      rw [htail] at this
      have balanced := h.isBalanced
      rw [IsBalanced, brackets_of_stays rfl] at balanced
      -- the first operand would be the name of the call alone
      obtain rfl := IsGroup.eq_nil_of_append this balanced
      exact h.ne_word

/-- A term whose lexemes are one operand is read as an operand. -/
theorem Reads.primary_of_isPrimary (h : Reads true vs .term (unblanked ts) a)
    (plain : ∀ t ∈ ts, t.isPlain = true) (hp : IsPrimary ts) :
    Reads true vs .primary (unblanked ts) a := by
  have last := h.isEnd_getLast
  generalize hws : unblanked ts = ws at h last
  cases h with
  | primary h => exact h
  | negative h => exact absurd hws (hp.unblanked_ne_negative plain)
  | binary hb hc hd => exact absurd hws (hp.unblanked_ne_binary plain hb last)

end Primary

end Sql

/-- A word that starts a call. -/
def Sql.isFunction (name : List Char) : Bool :=
  name.head?.any Column.startsWord && name.all Sql.inWord && (Lexeme.word name).isFree

theorem Sql.exists_of_isFunction {name : List Char} (h : isFunction name = true) :
    ∃ n ns, name = n :: ns ∧ Column.startsWord n = true ∧ ns.all inWord = true ∧
      (Lexeme.word (n :: ns)).isFree = true := by
  rw [isFunction, Bool.and_eq_true, Bool.and_eq_true] at h
  obtain ⟨⟨hn, hns⟩, free⟩ := h
  cases name with
  | nil => cases hn
  | cons n ns => exact ⟨n, ns, rfl, hn, (Bool.and_eq_true_iff.mp hns).2, free⟩

/-! ## Phrases -/

/-- A text that is cut into the lexemes `ts` where `rank` parameters come before it and a text with
`next` comes after it. -/
structure Fragment.IsPhrase (d : Dialect) (f : Fragment) (rank : Nat) (ts : List Lexeme)
    (next : List Char → Prop) : Prop where
  dialect : f.dialect = d
  lexes : ∀ mark, Sql.IsMark d.quote mark → ∀ rest, next rest →
    lexemes d.quote rank (f.chars (fun index => mark (index + rank)) ++ rest) =
      ts ++ lexemes d.quote (rank + f.params.length) rest
  plain : ∀ t ∈ ts, t.isPlain = true

/-- In any place the text is read as the argument, for values that are those of the fragment there. -/
def Fragment.Renders (d : Dialect) (f : Fragment) (pl : Place) (a : Arg) : Prop :=
  ∀ rank, ∃ ts, f.IsPhrase d rank ts Apart ∧
    ∀ vs, f.params <+: vs.drop rank → Reads true vs pl (Sql.unblanked ts) a

namespace Fragment

variable {d : Dialect} {f g : Fragment} {rank : Nat} {ts us : List Lexeme}
  {next next' : List Char → Prop} {a : Arg} {pl : Place}

theorem isPhrase_blank (d : Dialect) (rank : Nat) :
    (blank d).IsPhrase d rank [] fun _ => True where
  dialect := rfl
  lexes _ _ _ _ := rfl
  plain := by simp

theorem IsPhrase.write (h : f.IsPhrase d rank ts next) {cs : List Char}
    (hcs : ∀ rank rest, next' rest →
      lexemes d.quote rank (cs ++ rest) = us ++ lexemes d.quote rank rest)
    (hnext : ∀ rest, next' rest → next (cs ++ rest)) (plain : us.all Lexeme.isPlain = true) :
    (f.write cs).IsPhrase d rank (ts ++ us) next' where
  dialect := h.dialect
  lexes mark hmark rest hrest := by
    rw [chars_write, List.append_assoc, h.lexes mark hmark _ (hnext rest hrest), hcs _ _ hrest,
      params_write, List.append_assoc]
  plain t ht := (List.mem_append.mp ht).elim (h.plain t) (List.all_eq_true.mp plain t)

theorem IsPhrase.append (h : f.IsPhrase d rank ts next)
    (hg : g.IsPhrase d (rank + f.params.length) us next')
    (hnext : ∀ mark rest, next' rest → next (g.chars mark ++ rest)) :
    (f.append g).IsPhrase d rank (ts ++ us) next' where
  dialect := h.dialect
  lexes mark hmark rest hrest := by
    have shifted : (fun index => mark (index + f.params.length + rank)) =
        fun index => mark (index + (rank + f.params.length)) := by
      funext index
      congr 1
      omega
    rw [chars_append, shifted, List.append_assoc, h.lexes mark hmark _ (hnext _ rest hrest),
      hg.lexes mark hmark rest hrest, params_append, List.length_append, List.append_assoc,
      Nat.add_assoc]
  plain t ht := (List.mem_append.mp ht).elim (h.plain t) (hg.plain t)

/-- The values of two texts, one after the other. -/
theorem prefixes_drop {vs ws all : List Value} (h : vs ++ ws <+: all.drop rank) :
    vs <+: all.drop rank ∧ ws <+: all.drop (rank + vs.length) := by
  obtain ⟨after, h⟩ := h
  refine ⟨⟨ws ++ after, by rw [← h, List.append_assoc]⟩, ⟨after, ?_⟩⟩
  rw [← List.drop_drop, ← h, List.append_assoc, List.drop_left]

theorem Renders.term (h : f.Renders d .primary a) : f.Renders d .term a := fun rank => by
  obtain ⟨ts, hts, hreads⟩ := h rank
  exact ⟨ts, hts, fun vs hvs => .primary (hreads vs hvs)⟩

theorem lexes_opened {q : Char} (rank : Nat) (rest : List Char) (_ : True) :
    lexemes q rank (['('] ++ rest) = [.opened] ++ lexemes q rank rest := Sql.lexemes_opened

theorem lexes_closed {q : Char} (rank : Nat) (rest : List Char) (_ : Apart rest) :
    lexemes q rank ([')'] ++ rest) = [.closed] ++ lexemes q rank rest := Sql.lexemes_closed

theorem apart_closed (rest : List Char) (_ : Apart rest) : Apart ([')'] ++ rest) :=
  Sql.apart_cons (by decide) rest

/-- A bracketed text is one operand. -/
theorem Renders.bracketed (h : f.Renders d .term a) :
    ((blank d).bracketed f).Renders d .primary a := by
  intro rank
  obtain ⟨ts, hts, hreads⟩ := h rank
  have opened := (isPhrase_blank d rank).write lexes_opened (fun _ _ => trivial) (by decide)
  have inner := opened.append (g := f) hts fun _ _ _ => trivial
  refine ⟨_, inner.write lexes_closed apart_closed (by decide), fun vs hvs => ?_⟩
  simpa [Sql.unblanked_cons, Lexeme.isBlank] using Reads.group (hreads vs hvs)

section Lexes

variable {q : Char} (hq : q = '\x60' ∨ q = '"')
include hq

/-- A word with spaces around it. -/
theorem lexes_between {c : Char} {w : List Char} (hc : Column.startsWord c = true)
    (hw : w.all Sql.inWord = true) (rank : Nat) (rest : List Char) (_ : True) :
    lexemes q rank (' ' :: (c :: w ++ [' ']) ++ rest) =
      [.blank ' ', .word (c :: w), .blank ' '] ++ lexemes q rank rest := by
  rw [List.cons_append, Sql.lexemes_blank (by decide), List.append_assoc,
    Sql.lexemes_word hq hc (List.all_eq_true.mp hw) (by simpa using by decide), List.singleton_append,
    Sql.lexemes_blank (by decide)]
  rfl

/-- The first word of a text. -/
theorem lexes_first {c : Char} {w : List Char} (hc : Column.startsWord c = true)
    (hw : w.all Sql.inWord = true) (rank : Nat) (rest : List Char) (hrest : Apart rest) :
    lexemes q rank (c :: w ++ rest) = [.word (c :: w)] ++ lexemes q rank rest := by
  refine Sql.lexemes_word hq hc (List.all_eq_true.mp hw) fun e he => ?_
  rcases hrest e he with rfl | rfl | rfl | rfl <;> decide

/-- The first word of a text with a space after it. -/
theorem lexes_opening {c : Char} {w : List Char} (hc : Column.startsWord c = true)
    (hw : w.all Sql.inWord = true) (rank : Nat) (rest : List Char) (_ : True) :
    lexemes q rank (c :: w ++ [' '] ++ rest) =
      [.word (c :: w), .blank ' '] ++ lexemes q rank rest := by
  rw [List.append_assoc, List.singleton_append,
    lexes_first hq hc hw rank _ (Sql.apart_cons (.inl rfl) _), Sql.lexemes_blank (by decide)]
  rfl

/-- The last word of a text. -/
theorem lexes_last {c : Char} {w : List Char} (hc : Column.startsWord c = true)
    (hw : w.all Sql.inWord = true) (rank : Nat) (rest : List Char) (hrest : Apart rest) :
    lexemes q rank (' ' :: c :: w ++ rest) =
      [.blank ' ', .word (c :: w)] ++ lexemes q rank rest := by
  rw [List.cons_append, Sql.lexemes_blank (by decide), lexes_first hq hc hw rank rest hrest]
  rfl

theorem lexes_head {c : Char} {w : List Char} (hc : Column.startsWord c = true)
    (hw : w.all Sql.inWord = true) (rank : Nat) (rest : List Char) (_ : True) :
    lexemes q rank (c :: w ++ ['('] ++ rest) =
      [.word (c :: w), .opened] ++ lexemes q rank rest := by
  rw [List.append_assoc,
    Sql.lexemes_word hq hc (List.all_eq_true.mp hw) (by simpa using by decide),
    List.singleton_append, Sql.lexemes_opened]
  rfl

theorem lexes_comma (rank : Nat) (rest : List Char) (_ : True) :
    lexemes q rank ([',', ' '] ++ rest) = [Sql.comma, .blank ' '] ++ lexemes q rank rest := by
  rw [List.cons_append, Sql.lexemes_stray hq (by simp), List.cons_append, List.nil_append,
    Sql.lexemes_blank (by decide)]
  rfl

theorem lexes_minus (rank : Nat) (rest : List Char) (_ : True) :
    lexemes q rank (['-'] ++ rest) = [.sign ['-']] ++ lexemes q rank rest :=
  Sql.lexemes_stray hq (by simp)

end Lexes

end Fragment

/-- The text of an operator between its operands. -/
def Sql.Binary.spaced (op : Sql.Binary) : List Char := ' ' :: (op.spelling.toList ++ [' '])

theorem Sql.Binary.lexes_spaced {q : Char} (hq : q = '\x60' ∨ q = '"') (op : Sql.Binary) (rank : Nat)
    (rest : List Char) (_ : True) :
    lexemes q rank (op.spaced ++ rest) =
      [.blank ' ', op.lexeme, .blank ' '] ++ lexemes q rank rest := by
  have stray {c : Char} (hc : c ∈ ['+', '-', '*', '/', ',']) :
      lexemes q rank (' ' :: ([c] ++ [' ']) ++ rest) =
        [.blank ' ', .sign [c], .blank ' '] ++ lexemes q rank rest := by
    rw [List.cons_append, lexemes_blank (by decide), List.append_assoc, List.singleton_append,
      lexemes_stray hq hc, List.singleton_append, lexemes_blank (by decide)]
    rfl
  have signs {c : Char} {cs : List Char} (hc : isSign c = true) (hcs : cs.all isSign = true) :
      lexemes q rank (' ' :: (c :: cs ++ [' ']) ++ rest) =
        [.blank ' ', .sign (c :: cs), .blank ' '] ++ lexemes q rank rest := by
    rw [List.cons_append, lexemes_blank (by decide), List.append_assoc,
      lexemes_sign hq hc (List.all_eq_true.mp hcs) (by simpa using by decide), List.singleton_append,
      lexemes_blank (by decide)]
    rfl
  have words {c : Char} {cs : List Char} (hc : Column.startsWord c = true)
      (hcs : cs.all inWord = true) := Fragment.lexes_between hq hc hcs rank rest trivial
  rcases op with op | op <;> cases op
  · exact stray (c := '+') (by simp)
  · exact stray (c := '-') (by simp)
  · exact stray (c := '*') (by simp)
  · exact stray (c := '/') (by simp)
  · exact words (by decide) (by decide)
  · exact words (by decide) (by decide)
  all_goals exact signs (by decide) (by decide)

namespace Fragment

open Sql (Binary callTemplate pairTemplate word)

/-! ## The forms of calculations -/

/-- The tail of a case starts with a space. -/
def StartsWithSpace (f : Fragment) : Prop := ∀ mark, (f.chars mark).head? = some ' '

theorem StartsWithSpace.apart {t : Fragment} (h : t.StartsWithSpace) (mark : Nat → List Char)
    (rest : List Char) : Apart (t.chars mark ++ rest) := by
  intro c hc
  have := h mark
  rw [List.head?_append, this] at hc
  exact .inl (Option.some.inj hc).symm

section Forms

variable {d : Dialect} (hq : d.quote = '\x60' ∨ d.quote = '"') {f g t : Fragment} {a b c : Arg}
  {bs : List (Arg × Arg)} {o : Option Arg}
include hq

theorem Renders.binary (hf : f.Renders d .primary a) (hg : g.Renders d .primary b) (op : Binary)
    (hc : op.join? a b = some c) : ((f.write op.spaced).append g).Renders d .term c := by
  intro rank
  obtain ⟨ts, hts, hreads⟩ := hf rank
  obtain ⟨us, hus, hreads'⟩ := hg (rank + f.params.length)
  have left := hts.write (op.lexes_spaced hq) (fun _ _ => Sql.apart_cons (.inl rfl) _) (by
    rcases op with op | op <;> cases op <;> decide)
  refine ⟨_, left.append hus fun _ _ _ => trivial, fun vs hvs => ?_⟩
  obtain ⟨hvs, hvs'⟩ := prefixes_drop hvs
  have shown : op.lexeme.isBlank = false := by rcases op with op | op <;> cases op <;> rfl
  have spaces : (Lexeme.blank ' ').isBlank = true := rfl
  have := Reads.binary (hreads vs hvs) (hreads' vs hvs') hc
  simpa [Sql.unblanked_cons, shown, spaces] using this

theorem Renders.negative (hf : f.Renders d .primary a) :
    (((blank d).write ['-']).append f).Renders d .term (.expr (.template "-?" [a] false)) := by
  intro rank
  obtain ⟨ts, hts, hreads⟩ := hf rank
  have minus := (isPhrase_blank d rank).write (lexes_minus hq) (fun _ _ => trivial) (by decide)
  refine ⟨_, minus.append hts fun _ _ _ => trivial, fun vs hvs => ?_⟩
  exact Reads.negative (hreads vs hvs)

theorem Renders.call {name : List Char} (hname : Sql.isFunction name = true)
    (hf : f.Renders d .term a) :
    ((((blank d).write (name ++ ['('])).append f).write [')']).Renders d .primary
      (.expr (.template (callTemplate name) [a] false)) := by
  intro rank
  obtain ⟨ts, hts, hreads⟩ := hf rank
  obtain ⟨n, ns, rfl, hn, hns, free⟩ := Sql.exists_of_isFunction hname
  have head := (isPhrase_blank d rank).write (lexes_head hq hn hns) (fun _ _ => trivial)
    (by simp [Lexeme.isPlain])
  have inner := head.append hts fun _ _ _ => trivial
  refine ⟨_, inner.write lexes_closed apart_closed (by decide), fun vs hvs => ?_⟩
  simpa [Sql.unblanked_cons, Lexeme.isBlank] using Reads.call free (hreads vs hvs)

theorem Renders.pair {name : List Char} (hname : Sql.isFunction name = true)
    (hf : f.Renders d .term a) (hg : g.Renders d .term b) :
    ((((((blank d).write (name ++ ['('])).append f).write [',', ' ']).append g).write
      [')']).Renders d .primary (.expr (.template (pairTemplate name) [a, b] false)) := by
  intro rank
  obtain ⟨ts, hts, hreads⟩ := hf rank
  obtain ⟨us, hus, hreads'⟩ := hg (rank + f.params.length)
  obtain ⟨n, ns, rfl, hn, hns, free⟩ := Sql.exists_of_isFunction hname
  have head := (isPhrase_blank d rank).write (lexes_head hq hn hns) (fun _ _ => trivial)
    (by simp [Lexeme.isPlain])
  have first := (head.append hts fun _ _ _ => trivial).write (lexes_comma hq)
    (fun _ _ => Sql.apart_cons (by decide) _) (by decide)
  have both := first.append (g := g) (by simpa using hus) fun _ _ _ => trivial
  refine ⟨_, both.write lexes_closed apart_closed (by decide), fun vs hvs => ?_⟩
  obtain ⟨hvs, hvs'⟩ := prefixes_drop (show f.params ++ g.params <+: vs.drop rank by simpa using hvs)
  have := Reads.pair free (hreads vs hvs) (hreads' vs hvs')
  simpa [Sql.unblanked_cons, Lexeme.isBlank, Sql.comma] using this

theorem Renders.otherwise (hf : f.Renders d .primary a) :
    ((((blank d).write " ELSE ".toList).append f).write " END".toList).Renders d .tail
      (.expr (.caseWhen none [] (some a))) := by
  intro rank
  obtain ⟨ts, hts, hreads⟩ := hf rank
  have lead := (isPhrase_blank d rank).write
    (lexes_between hq (c := 'E') (w := "LSE".toList) (by decide) (by decide))
    (fun _ _ => trivial) (by decide)
  have whole := (lead.append (g := f) hts fun _ _ _ => trivial).write
    (lexes_last hq (c := 'E') (w := "ND".toList) (by decide) (by decide))
    (fun _ _ => Sql.apart_cons (.inl rfl) _) (by decide)
  refine ⟨_, whole, fun vs hvs => ?_⟩
  have := Reads.otherwise (.primary (hreads vs hvs))
  simpa [Sql.unblanked_cons, Lexeme.isBlank, word] using this

theorem Renders.branch (hf : f.Renders d .primary a) (hg : g.Renders d .primary b)
    (ht : t.Renders d .tail (.expr (.caseWhen none bs o))) (space : t.StartsWithSpace) :
    (((((blank d).write " WHEN ".toList).append f).write " THEN ".toList).append g).append t
      |>.Renders d .tail (.expr (.caseWhen none ((a, b) :: bs) o)) := by
  intro rank
  obtain ⟨ts, hts, hreads⟩ := hf rank
  obtain ⟨us, hus, hreads'⟩ := hg (rank + f.params.length)
  obtain ⟨rest, hrest, hreads''⟩ := ht (rank + f.params.length + g.params.length)
  have lead := (isPhrase_blank d rank).write
    (lexes_between hq (c := 'W') (w := "HEN".toList) (by decide) (by decide))
    (fun _ _ => trivial) (by decide)
  have condition := (lead.append (g := f) hts fun _ _ _ => trivial).write
    (lexes_between hq (c := 'T') (w := "HEN".toList) (by decide) (by decide))
    (fun _ _ => Sql.apart_cons (.inl rfl) _) (by decide)
  have result := condition.append (g := g) (by simpa using hus) fun _ _ _ => trivial
  have whole := result.append (g := t) (by simpa [Nat.add_assoc] using hrest)
    fun mark rest _ => space.apart mark rest
  refine ⟨_, whole, fun vs hvs => ?_⟩
  obtain ⟨hvs, hvs''⟩ := prefixes_drop
    (show (f.params ++ g.params) ++ t.params <+: vs.drop rank by simpa using hvs)
  obtain ⟨hvs, hvs'⟩ := prefixes_drop hvs
  rw [List.length_append, ← Nat.add_assoc] at hvs''
  have := Reads.branch (.primary (hreads vs hvs)) (.primary (hreads' vs hvs')) (hreads'' vs hvs'')
  simpa [Sql.unblanked_cons, Lexeme.isBlank, word] using this

theorem Renders.searched (ht : t.Renders d .tail (.expr (.caseWhen none bs o)))
    (space : t.StartsWithSpace) :
    (((blank d).write "CASE".toList).append t).Renders d .primary (.expr (.caseWhen none bs o)) := by
  intro rank
  obtain ⟨ts, hts, hreads⟩ := ht rank
  have lead := (isPhrase_blank d rank).write
    (lexes_first hq (c := 'C') (w := "ASE".toList) (by decide) (by decide))
    (fun _ _ => trivial) (by decide)
  exact ⟨_, lead.append (g := t) hts fun mark rest _ => space.apart mark rest,
    fun vs hvs => Reads.searched (hreads vs hvs)⟩

theorem Renders.caseOf (hf : f.Renders d .primary a)
    (ht : t.Renders d .tail (.expr (.caseWhen none bs o))) (space : t.StartsWithSpace) :
    ((((blank d).write "CASE ".toList).append f).append t).Renders d .primary
      (.expr (.caseWhen (some a) bs o)) := by
  intro rank
  obtain ⟨ts, hts, hreads⟩ := hf rank
  obtain ⟨us, hus, hreads'⟩ := ht (rank + f.params.length)
  have lead := (isPhrase_blank d rank).write
    (lexes_opening hq (c := 'C') (w := "ASE".toList) (by decide) (by decide))
    (fun _ _ => trivial) (by decide)
  have subject := lead.append (g := f) hts fun _ _ _ => trivial
  have whole := subject.append (g := t) (by simpa using hus) fun mark rest _ => space.apart mark rest
  refine ⟨_, whole, fun vs hvs => ?_⟩
  obtain ⟨hvs, hvs'⟩ := prefixes_drop (show f.params ++ t.params <+: vs.drop rank by simpa using hvs)
  have := Reads.caseOf (.primary (hreads vs hvs)) (hreads' vs hvs')
  simpa [Sql.unblanked_cons, Lexeme.isBlank, word] using this

end Forms

section Operands

variable {d : Dialect} (hq : d.quote = '\x60' ∨ d.quote = '"') {f : Fragment} {a : Arg}
include hq

/-- A term that passes for atomic is one operand: nothing of what can be misread is plain. -/
theorem Renders.primary_of_isAtomic (hf : f.Renders d .term a) (h : f.isAtomic = true) :
    f.Renders d .primary a := by
  intro rank
  obtain ⟨ts, hts, hreads⟩ := hf rank
  refine ⟨ts, hts, fun vs hvs => ?_⟩
  have text : lexemes d.quote rank f.canonical = ts := by
    have := hts.lexes _ (Sql.isMark_question _) [] Sql.apart_nil
    rwa [List.append_nil, Sql.lexemes_nil, List.append_nil] at this
  have quiet : ∀ t ∈ ts, t.hidesBracket = false := fun t ht => by
    have := hts.plain t ht
    cases t <;> first | rfl | cases this | skip
    simpa [Lexeme.isPlain] using this
  have reads := hreads vs hvs
  rw [isAtomic, hts.dialect] at h
  have whole : .torn ∉ lexemes d.quote rank f.canonical := fun ht => by
    rw [text] at ht
    cases hts.plain _ ht
  have balanced : IsBalanced (lexemes d.quote rank f.canonical) := by
    rw [text, IsBalanced, ← Sql.brackets_unblanked]
    exact reads.isBalanced
  rcases Sql.isPrimary_or_isMisread hq whole balanced h with h | h | h
  · rw [h, Sql.lexemes_nil] at text
    rw [← text] at reads
    exact absurd rfl reads.ne_nil
  · exact reads.primary_of_isPrimary hts.plain (text ▸ h)
  · rw [text] at h
    exfalso
    cases h with
    | literals b c us => cases hts.plain (.literal b) (by simp)
    | @star us full h =>
      have one : Sql.unblanked [Sql.star] = [Sql.star] := rfl
      have := reads.isEnd_getLast Sql.star (by rw [Sql.unblanked_append, one]; simp)
      cases this
    | @group lead inner rest hlead hinner hides more =>
      obtain ⟨t, ht, hidden⟩ := hides
      rw [quiet t (by simp [ht])] at hidden
      cases hidden

omit hq in
theorem Renders.blank_append {pl : Place} (hf : f.Renders d pl a) :
    ((blank d).append f).Renders d pl a := by
  intro rank
  obtain ⟨ts, hts, hreads⟩ := hf rank
  exact ⟨_, (isPhrase_blank d rank).append hts fun _ _ _ => trivial, hreads⟩

/-- What is put in brackets unless it is atomic is one operand. -/
theorem Renders.appendOperand (hf : f.Renders d .term a) :
    ((blank d).appendOperand f).Renders d .primary a := by
  unfold Fragment.appendOperand
  split
  case isTrue h => exact (hf.primary_of_isAtomic hq h).blank_append
  case isFalse h => exact hf.bracketed

end Operands

end Fragment

end SqlClause
