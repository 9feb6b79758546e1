import SqlClause.Proofs.AtomicTexts
import SqlClause.Proofs.VoidExpressions

/-! # Which parts of a conjunction stand in brackets

A conjunction puts a part in brackets where the text of a template asks for it. The template may be
the only part that is written in groups around it. What is written in the place of its arguments does
not count. -/

namespace SqlClause

namespace Sql

namespace Lexeme

def isDelimiter : Lexeme → Bool
  | .blank _ | .opened | .closed => true
  | _ => false

end Lexeme

/-- The word for disjunctions between `l` and `r`, outside of brackets and of cases. -/
def IsBareOr (l r : Lexeme) (ts : List Lexeme) : Prop :=
  ∃ before w after, ts = before ++ l :: w :: r :: after ∧ w.isWord "OR" = true ∧
    IsBalanced (before ++ [l]) ∧
      scan Lexeme.caseWord (fun _ => false) 0 (before ++ [l]) = some 0

def HasBareOr (ts : List Lexeme) : Prop :=
  ∃ l r, l.isDelimiter = true ∧ r.isDelimiter = true ∧ IsBareOr l r ts

theorem Lexeme.exists_of_isWord {t : Lexeme} {word : String} (h : t.isWord word = true) :
    ∃ cs, t = .word cs ∧ cs.map Char.toUpper = word.toList := by
  cases t with
  | word cs => exact ⟨cs, rfl, of_decide_eq_true h⟩
  | _ => cases h

/-- The text of a word between two spaces. -/
theorem Spelled.spaced_word {q : Char} {before after : List Lexeme} {w : Lexeme} {s : List Char}
    {word : String} (h : Spelled q (before ++ .blank ' ' :: w :: .blank ' ' :: after) s)
    (hw : w.isWord word = true) :
    ∃ xs cs ys, s = xs ++ ' ' :: (cs ++ ' ' :: ys) ∧ cs.map Char.toUpper = word.toList := by
  obtain ⟨cs, rfl, hcs⟩ := Lexeme.exists_of_isWord hw
  obtain ⟨xs, ys, rfl, -, hys⟩ := h.append_inv
  cases hys with
  | cons hl hys =>
    cases hys with
    | cons hw hys =>
      cases hys with
      | cons hr hys =>
        cases hl
        cases hw
        cases hr
        exact ⟨xs, _, _, rfl, hcs⟩

end Sql

open Sql (lexemes Lexeme IsBalanced IsBareOr HasBareOr Spelled)

namespace Expr

theorem occursIn_append (needle before after : List Char) :
    occursIn needle (before ++ (needle ++ after)) = true := by
  induction before with
  | nil =>
    cases needle with
    | nil => cases after <;> rfl
    | cons c needle => simp [occursIn]
  | cons c before ih => simp [occursIn, ih]

/-- A text is not one bracketed group if it has the word for disjunctions outside of brackets. -/
theorem isGroup_eq_false_of_isBareOr {q : Char} (hq : q = '\x60' ∨ q = '"') {l r : Lexeme}
    {cs : List Char} (quiet : ∀ t ∈ lexemes q 0 cs, t.hidesBracket = false)
    (h : IsBareOr l r (lexemes q 0 cs)) : Atom.isGroup cs = false := by
  obtain ⟨before, w, after, hts, -, balanced, -⟩ := h
  have spelled := Sql.spelled_lexemes q 0 cs
  cases cs with
  | nil => rfl
  | cons c cs =>
    by_cases hc : c = '('
    · subst hc
      rw [Sql.lexemes_opened] at hts
      -- the first bracket is closed before the word
      obtain ⟨inner, rest, hparts, hinner⟩ : ∃ inner rest,
          before ++ [l] = .opened :: (inner ++ .closed :: rest) ∧ IsBalanced inner := by
        obtain ⟨t, before', hbefore⟩ := List.exists_cons_of_ne_nil (List.append_ne_nil_of_right_ne_nil
          before (List.cons_ne_nil l []))
        rw [List.append_cons, hbefore, List.cons_append] at hts
        obtain rfl : t = .opened := (List.cons.inj hts).1.symm
        rw [IsBalanced, hbefore, Sql.brackets_opened] at balanced
        obtain ⟨inner, rest, rfl, hinner, -⟩ := Sql.exists_closing balanced
        exact ⟨inner, rest, hbefore, hinner⟩
      have whole : lexemes q 0 ('(' :: cs) =
          .opened :: inner ++ .closed :: (rest ++ w :: r :: after) := by
        rw [Sql.lexemes_opened, hts, List.append_cons, hparts]
        simp
      rw [whole] at spelled quiet
      refine spelled.isGroup_eq_false hq hinner (fun t ht => quiet t ?_) (by simp)
      exact List.mem_append_left _ (List.mem_cons_of_mem _ ht)
    · simp [Atom.isGroup, hc]

/-- A template is loose if its text has the word for disjunctions between spaces, outside of brackets
and of cases, and no bracket in quotes. -/
theorem isLoose_of_isBareOr {q : Char} (hq : q = '\x60' ∨ q = '"') {sql : String}
    (quiet : ∀ t ∈ lexemes q 0 sql.toList, t.hidesBracket = false)
    (h : IsBareOr (.blank ' ') (.blank ' ') (lexemes q 0 sql.toList)) (args : List Arg)
    (flat : Bool) : (template sql args flat).isLoose = true := by
  have ungrouped := isGroup_eq_false_of_isBareOr hq quiet h
  obtain ⟨before, w, after, hts, hw, -, -⟩ := h
  have spelled := Sql.spelled_lexemes q 0 sql.toList
  rw [hts] at spelled
  obtain ⟨xs, cs, ys, hsql, hcs⟩ := spelled.spaced_word hw
  have upper : sql.toList.map Char.toUpper =
      xs.map Char.toUpper ++ (" OR ".toList ++ ys.map Char.toUpper) := by
    have blank : ' '.toUpper = ' ' := rfl
    have word : " OR ".toList = ' ' :: ("OR".toList ++ [' ']) := rfl
    rw [hsql, List.map_append, List.map_cons, List.map_append, List.map_cons, hcs, blank, word]
    simp
  rw [isLoose]
  simp only [ungrouped, upper, occursIn_append]
  simp

variable {d : Dialect} {es : List Expr}

/-- A child is refused as its negation is written. -/
theorem refusal_eq_write (e : Expr) (d : Dialect) :
    e.refusal d = ((negation? e).getD (.not [e])).write (.blank d) := by
  cases h : e.negation? with
  | some n => exact refusal_of_some h d
  | none =>
    rw [Option.getD_none, write_not]
    by_cases hv : (e.fragment d).isVoid = true
    · have blank : e.refusal d = ⟨.blank d, false⟩ := by
        rw [refusal_of_none h, Fragment.addRefused, if_pos hv]
      rw [Fragment.addGroup_of_shown_nil (by simp [Fragment.shown, blank]), blank]
    · have single : Fragment.shown [e.refusal d] = [e.refusal d] := by
        simp [Fragment.shown, refusal_of_none h, isVoid_addRefused, hv]
      rw [List.map_singleton, Fragment.dialect_blank, Fragment.addGroup_of_shown_single single,
        refusal_of_none h]
      have apart := Fragment.append_blank (.blank d) d
      simp only [Fragment.addRefused, if_neg hv]
      split
      · rw [← Fragment.append_assoc, Fragment.writeString, ← Fragment.append_write, apart]
      · rw [← Fragment.append_appendOperand, Fragment.writeString, ← Fragment.append_write, apart]

/-- A negation of several children is written as the conjunction of their negations. -/
theorem write_not_eq_write_and (es : List Expr) (f : Fragment) :
    (Expr.not es).write f = (Expr.and (negations es)).write f := by
  rw [write_not, write_and, negations_eq_map, List.map_map]
  congr 2
  funext e
  exact refusal_eq_write e f.dialect

/-- The members of a conjunction; a negation is the conjunction of its negated children. -/
def conjuncts : Expr → List Expr
  | .and es => es
  | .not es => negations es
  | _ => []

/-- Those that write anything. -/
def written (d : Dialect) (es : List Expr) : List Expr := es.filter fun e => !(e.fragment d).isVoid

/-- Whether an expression stands in brackets among the parts of a conjunction. -/
def isBracketed (d : Dialect) (e : Expr) : Bool := (e.write (.blank d)).loose

/-- The expression whose text another one writes as its own: a group with one member that writes
anything passes on that member. -/
inductive PassesOn (d : Dialect) : Expr → Expr → Prop where
  | self (e : Expr) : PassesOn d e e
  | and {es : List Expr} {c e : Expr} (h : written d es = [c]) (rest : PassesOn d c e) :
      PassesOn d (.and es) e
  | or {es : List Expr} {c e : Expr} (h : written d es = [c]) (rest : PassesOn d c e) :
      PassesOn d (.or es) e
  | not {es : List Expr} {c e : Expr} (h : written d (negations es) = [c]) (rest : PassesOn d c e) :
      PassesOn d (.not es) e

theorem shown_map_write (es : List Expr) (d : Dialect) :
    Fragment.shown (es.map fun e => e.write (.blank d)) =
      (written d es).map fun e => e.write (.blank d) := by
  rw [Fragment.shown, List.filter_map]
  rfl

theorem mem_of_written {c : Expr} (h : written d es = [c]) : c ∈ es := by
  have : c ∈ written d es := by rw [h]; exact List.mem_singleton_self c
  exact (List.mem_filter.mp this).1

/-- What a group writes is bracketed outside only if the group has a single member to write, which
is. -/
theorem loose_addGroup (separator : List Char) (es : List Expr) (f : Fragment) :
    (f.addGroup separator (es.map fun e => e.write (.blank d))).loose = true ↔
      ∃ c, written d es = [c] ∧ c.isBracketed d = true := by
  have shown := shown_map_write es d
  match h : written d es with
  | [] => rw [h] at shown; simp [Fragment.addGroup_of_shown_nil shown]
  | [c] => rw [h] at shown; simp [Fragment.addGroup_of_shown_single shown, isBracketed]
  | a :: b :: cs => rw [h] at shown; simp [Fragment.addGroup_of_shown_many shown]

/-- A negation of what has no negated form passes on nothing but itself. -/
theorem PassesOn.eq_of_negation?_eq_none {c e : Expr} (hc : c.negation? = none)
    (h : PassesOn d (.not [c]) e) : e = .not [c] := by
  generalize hn : Expr.not [c] = n at h
  induction h with
  | self => rfl
  | and | or => cases hn
  | @not es m e hw rest ih =>
    cases hn
    have same : m = .not [c] := by
      have := mem_of_written hw
      rwa [negations, negations, hc, Option.getD_none, List.mem_singleton] at this
    exact (ih same.symm).trans same

/-- A group asks for brackets if and only if what it passes on does. -/
theorem isBracketed_iff_of_write_eq_addGroup {separator : List Char} {members : List Expr} {e : Expr}
    (hw : e.write (.blank d) =
      (Fragment.blank d).addGroup separator (members.map fun e => e.write (.blank d)))
    (hpass : ∀ c, PassesOn d e c ↔ c = e ∨ ∃ m, written d members = [m] ∧ PassesOn d m c)
    (hloose : e.isLoose = false)
    (ih : ∀ m ∈ members, m.isBracketed d = true ↔ ∃ c, PassesOn d m c ∧ c.isLoose = true) :
    e.isBracketed d = true ↔ ∃ c, PassesOn d e c ∧ c.isLoose = true := by
  rw [isBracketed, hw, loose_addGroup]
  constructor
  · rintro ⟨m, hm, hb⟩
    obtain ⟨c, hc, hl⟩ := (ih m (mem_of_written hm)).mp hb
    exact ⟨c, (hpass c).mpr (.inr ⟨m, hm, hc⟩), hl⟩
  · rintro ⟨c, hc, hl⟩
    rcases (hpass c).mp hc with rfl | ⟨m, hm, hc⟩
    · rw [hloose] at hl
      cases hl
    · exact ⟨m, hm, (ih m (mem_of_written hm)).mpr ⟨c, hc, hl⟩⟩

/-- The brackets of a part are asked for by the text of the template that it passes on. -/
theorem isBracketed_iff (e : Expr) :
    e.isBracketed d = true ↔ ∃ c, PassesOn d e c ∧ c.isLoose = true := by
  induction e using writing_induction with
  | steps e h inner =>
    rw [isBracketed, write_of_isGroup_eq_false h]
    constructor
    · exact fun hl => ⟨e, .self e, hl⟩
    · rintro ⟨c, hc, hl⟩
      cases hc with
      | self => exact hl
      | and | or | not => cases h
  | and es ih =>
    refine isBracketed_iff_of_write_eq_addGroup (write_and es _) (fun c => ⟨fun h => ?_, ?_⟩) rfl ih
    · cases h with
      | self => exact .inl rfl
      | and hw rest => exact .inr ⟨_, hw, rest⟩
    · rintro (rfl | ⟨m, hm, hc⟩)
      · exact .self _
      · exact .and hm hc
  | or es ih =>
    refine isBracketed_iff_of_write_eq_addGroup (write_or es _) (fun c => ⟨fun h => ?_, ?_⟩) rfl ih
    · cases h with
      | self => exact .inl rfl
      | or hw rest => exact .inr ⟨_, hw, rest⟩
    · rintro (rfl | ⟨m, hm, hc⟩)
      · exact .self _
      · exact .or hm hc
  | not es ih ihn =>
    refine isBracketed_iff_of_write_eq_addGroup
      ((write_not_eq_write_and es _).trans (write_and _ _)) (fun c => ⟨fun h => ?_, ?_⟩) rfl ?_
    · cases h with
      | self => exact .inl rfl
      | not hw rest => exact .inr ⟨_, hw, rest⟩
    · rintro (rfl | ⟨m, hm, hc⟩)
      · exact .self _
      · exact .not hm hc
    · intro m hm
      rw [negations_eq_map] at hm
      obtain ⟨c, hc, rfl⟩ := List.mem_map.mp hm
      cases hn : c.negation? with
      | some n => exact ihn c hc n hn
      | none =>
        have unbracketed : (Expr.not [c]).isBracketed d = false := by
          have alone := refusal_eq_write c d
          rw [hn, Option.getD_none] at alone
          rw [isBracketed, ← alone, refusal_of_none hn]
        rw [Option.getD_none, unbracketed]
        refine ⟨fun h => (by cases h), ?_⟩
        rintro ⟨e, he, hl⟩
        rw [he.eq_of_negation?_eq_none hn] at hl
        cases hl

/-- The texts of parts, with their brackets, where `n` parameters come before them. -/
def partTexts (d : Dialect) (mark : Nat → List Char) (n : Nat) : List Expr → List (List Char)
  | [] => []
  | c :: cs =>
    let text := (c.fragment d).chars fun index => mark (index + n)
    (if c.isBracketed d then '(' :: (text ++ [')']) else text) ::
      partTexts d mark (n + (c.fragment d).params.length) cs

theorem chars_addOperand (f : Fragment) (c : Expr) (mark : Nat → List Char) :
    (f.addOperand (c.write (.blank d))).chars mark =
      f.chars mark ++ (partTexts d mark f.params.length [c]).flatten := by
  rw [Fragment.addOperand, partTexts, partTexts, isBracketed]
  split
  · simp [Fragment.bracketed, fragment]
  · simp [fragment]

theorem chars_addJoined (f : Fragment) (separator : List Char) (cs : List Expr)
    (mark : Nat → List Char) :
    (f.addJoined separator (cs.map fun c => c.write (.blank d))).chars mark =
      f.chars mark ++ separator.intercalate (partTexts d mark f.params.length cs) := by
  induction cs generalizing f with
  | nil => simp [Fragment.addJoined, partTexts]
  | cons c cs ih =>
    cases cs with
    | nil =>
      rw [List.map_singleton, Fragment.addJoined, chars_addOperand]
      simp [partTexts]
    | cons c' cs =>
      rw [List.map_cons, Fragment.addJoined, ih, Fragment.chars_write, chars_addOperand,
        Fragment.params_write, Fragment.params_addOperand, List.length_append]
      · simp [partTexts, fragment, List.append_assoc]
      · simp

/-- A group of several parts that write anything: the parts, with their brackets, joined in
brackets. -/
theorem chars_addGroup_of_written {separator : List Char} (many : 2 ≤ (written d es).length)
    (mark : Nat → List Char) :
    ((Fragment.blank d).addGroup separator
        (es.map fun e => e.write (.blank d))).fragment.chars mark =
      '(' :: (separator.intercalate (partTexts d mark 0 (written d es)) ++ [')']) := by
  obtain ⟨a, b, cs, hcs⟩ : ∃ a b cs, written d es = a :: b :: cs := by
    match h : written d es with
    | [] | [_] => rw [h] at many; simp at many
    | a :: b :: cs => exact ⟨a, b, cs, rfl⟩
  have shown := shown_map_write es d
  rw [hcs] at shown
  rw [Fragment.addGroup_of_shown_many shown, hcs]
  have joined := chars_addJoined ((Fragment.blank d).write ['(']) separator (a :: b :: cs) mark
    (d := d)
  have opening : ((Fragment.blank d).write ['(']).chars mark = ['('] := Fragment.chars_write _ _ _
  rw [List.map_cons, List.map_cons] at joined
  rw [Fragment.chars_write, joined, opening]
  rfl

theorem chars_fragment_of_written {e : Expr} (many : 2 ≤ (written d e.conjuncts).length)
    (mark : Nat → List Char) :
    (e.fragment d).chars mark =
      '(' :: (" AND ".toList.intercalate (partTexts d mark 0 (written d e.conjuncts)) ++ [')']) := by
  have conjunction : e.write (.blank d) = (Expr.and e.conjuncts).write (.blank d) := by
    cases e with
    | and es => rfl
    | not es => exact write_not_eq_write_and es _
    | _ => simp [conjuncts, written] at many
  rw [fragment, conjunction, write_and, Fragment.dialect_blank, chars_addGroup_of_written many]

end Expr

open SqlClause.Expr (PassesOn written partTexts)

/-- A conjunction that writes several parts writes each of them in brackets if and only if the part
passes on a template whose text is loose; and it is if its text has the word for disjunctions between
spaces, outside of brackets and of cases, and no bracket in quotes. -/
theorem conjunction_brackets_parts {d : Dialect} (hd : d ∈ [Dialect.mysql, .postgres, .sqlite])
    {e : Expr} (many : 2 ≤ (written d e.conjuncts).length) :
    (e.statement d).sql =
        '(' :: (" AND ".toList.intercalate
          (partTexts d (fun index => d.placeholder (index + 1)) 0 (written d e.conjuncts)) ++ [')']) ∧
      ∀ c ∈ written d e.conjuncts,
        (c.isBracketed d = true ↔ ∃ s, PassesOn d c s ∧ s.isLoose = true) ∧
        ∀ sql args flat, PassesOn d c (.template sql args flat) →
          (∀ t ∈ lexemes d.quote 0 sql.toList, t.hidesBracket = false) →
          IsBareOr (.blank ' ') (.blank ' ') (lexemes d.quote 0 sql.toList) →
          c.isBracketed d = true := by
  refine ⟨?_, fun c _ => ⟨c.isBracketed_iff, fun sql args flat hpass quiet hor => ?_⟩⟩
  · rw [Expr.statement, Fragment.sql_finish, Fragment.sql, Expr.dialect_fragment]
    exact Expr.chars_fragment_of_written many _
  · exact c.isBracketed_iff.mpr
      ⟨_, hpass, Expr.isLoose_of_isBareOr (Sql.isLegible_of_mem hd).quote quiet hor args flat⟩

/-- A template that is the only member of a disjunction has its brackets outside of it. -/
theorem conjunction_brackets_passed_template :
    ∃ part e : Expr, part = .or [.empty, .template "a = 1 OR b = 2" [] false] ∧
      e = .and [part, .column (.named "c")] ∧ 2 ≤ (written .mysql e.conjuncts).length ∧
      part ∈ written .mysql e.conjuncts ∧ part.isBracketed .mysql = true := by
  refine ⟨_, _, rfl, rfl, ?_⟩
  let template : Expr := .template "a = 1 OR b = 2" [] false
  have text : lexemes Dialect.mysql.quote 0 "a = 1 OR b = 2".toList =
      [.word ['a'], .blank ' ', .sign ['='], .blank ' ', .number ['1']] ++ .blank ' ' ::
        .word ['O', 'R'] :: .blank ' ' :: [.word ['b'], .blank ' ', .sign ['='], .blank ' ',
          .number ['2']] := by cbv
  have many : 2 ≤ (written .mysql (Expr.and [.or [.empty, .template "a = 1 OR b = 2" [] false],
      .column (.named "c")]).conjuncts).length := by cbv
  have full : ((Expr.or [.empty, template]).fragment .mysql).isVoid = false := by cbv
  have mem : Expr.or [.empty, template] ∈
      written .mysql (Expr.and [.or [.empty, template], .column (.named "c")]).conjuncts :=
    List.mem_filter.mpr ⟨List.mem_cons_self, by rw [full]; rfl⟩
  have pass : PassesOn .mysql (.or [.empty, template]) template := by
    have void : (Expr.empty.fragment .mysql).isVoid = true := Expr.isVoid_fragment_empty
    have shown : (template.fragment .mysql).isVoid = false := by cbv
    exact .or (by simp [written, void, shown]) (.self _)
  refine ⟨many, mem, ((conjunction_brackets_parts (d := .mysql) (by simp) many).2 _ mem).2
    _ _ _ pass ?_ ?_⟩
  · rw [text]
    decide
  · exact ⟨_, _, _, text, by decide, by decide, by decide⟩

/-- What stands in the place of an argument does not count: a part that takes a disjunction as it is
has no brackets, and what follows is joined to the second half of the disjunction only. -/
theorem conjunction_captures_verbatim_disjunction :
    ∃ part e : Expr, part = .template "?" [.verbatim (.template "a OR b" [] false)] false ∧
      e = .and [part, .column (.named "c")] ∧ 2 ≤ (written .mysql e.conjuncts).length ∧
      part ∈ written .mysql e.conjuncts ∧
      HasBareOr (lexemes Dialect.mysql.quote 0 (part.statement .mysql).sql) ∧
      (part.statement .mysql).sql = "a OR b".toList ∧
      (e.statement .mysql).sql = "(a OR b AND \x60c\x60)".toList := by
  refine ⟨_, _, rfl, rfl, by cbv, List.mem_filter.mpr ⟨List.mem_cons_self, by cbv⟩, ?_, by cbv,
    by cbv⟩
  have text : ((Expr.template "?" [.verbatim (.template "a OR b" [] false)] false).statement
      .mysql).sql = "a OR b".toList := by cbv
  have cut : lexemes Dialect.mysql.quote 0 "a OR b".toList =
      [.word ['a']] ++ .blank ' ' :: .word ['O', 'R'] :: .blank ' ' :: [.word ['b']] := by cbv
  rw [text]
  exact ⟨_, _, by decide, by decide, _, _, _, cut, by decide, by decide, by decide⟩

end SqlClause
