import Mathlib
import SqlClause.Proofs.BuiltFragments
import SqlClause.Proofs.Spellings
import SqlClause.Proofs.SqlTokens

/-! # Question marks that no value stands for

A mark of a template for which there is no argument stays in the text, and so does a mark in a name.
A driver that looks for question marks takes those outside of quotes for placeholders, but no slot is
kept for them, so a check of the slots never finds them. -/

namespace SqlClause

namespace Text

/-- The number of question marks between quotes, or of those that are not. The quote that is open
before the text, if there is one, is `inside`. -/
def marks (q : Char) (quoted : Bool) : Option Char → List Char → Nat
  | _, [] => 0
  | none, c :: cs =>
    if c = '\'' ∨ c = q then marks q quoted (some c) cs
    else (if c = '?' ∧ quoted = false then 1 else 0) + marks q quoted none cs
  | some r, c :: cs =>
    if c = r then marks q quoted none cs
    else (if c = '?' ∧ quoted = true then 1 else 0) + marks q quoted (some r) cs

theorem marks_add_marks {q : Char} (hq : q ≠ '?') {inside : Option Char} (hi : inside ≠ some '?')
    (cs : List Char) : marks q false inside cs + marks q true inside cs = cs.count '?' := by
  induction cs generalizing inside with
  | nil => cases inside <;> rfl
  | cons c cs ih =>
    have outside := @ih none nofun
    rw [List.count_cons]
    -- a character that opens or closes quotes is no mark, so it counts on neither side
    cases inside with
    | none =>
      have opened (h : c ≠ '?') := @ih (some c) (by simpa using h)
      by_cases hc : c = '\'' ∨ c = q
      · have other : c ≠ '?' := by
          rintro rfl
          rcases hc with hc | hc
          · exact absurd hc (by decide)
          · exact hq hc.symm
        simp [marks, hc, other, opened other]
      · simp only [marks, hc, if_false]
        by_cases hm : c = '?' <;> simp [hm] <;> omega
    | some r =>
      have within := ih hi
      by_cases hc : c = r
      · subst hc
        have other : c ≠ '?' := by simpa using hi
        simp [marks, outside, other]
      · simp only [marks, hc, if_false]
        by_cases hm : c = '?' <;> simp [hm] <;> omega

theorem count_quoted {q : Char} (hq : q ≠ '?') (cs : List Char) :
    (quoted q cs).count '?' = cs.count '?' := by
  have doubled : (doubled q cs).count '?' = cs.count '?' := by
    induction cs with
    | nil => rfl
    | cons c cs ih =>
      rw [doubled]
      split
      · rename_i hc
        rw [hc, List.count_cons_of_ne hq, List.count_cons_of_ne hq, List.count_cons_of_ne hq, ih]
      · rw [List.count_cons, List.count_cons, ih]
  rw [quoted, List.count_cons_of_ne hq, List.count_append, doubled, List.count_singleton]
  simp [hq]

end Text

/-! ## Marks that stay text -/

def Column.strays (c : Column) : Nat := (c.spellings.map fun s => s.toList.count '?').sum

mutual

/-- The question marks in an argument that are no placeholders. -/
def Arg.strays : Arg → Nat
  | .value _ | .list _ => 0
  | .expr e | .verbatim e => e.strays

/-- Those in the first arguments, as many as there are places for. -/
def Arg.straysFirst : Nat → List Arg → Nat
  | _, [] => 0
  | 0, _ :: _ => 0
  | n + 1, a :: args => a.strays + Arg.straysFirst n args

def Arg.straysOption : Option Arg → Nat
  | none => 0
  | some a => a.strays

def Arg.straysBranches : List (Arg × Arg) → Nat
  | [] => 0
  | (condition, result) :: branches =>
    condition.strays + result.strays + Arg.straysBranches branches

/-- The question marks that an expression writes as text: those of templates for which there are no
arguments, and those in names. What a template leaves over writes none. -/
def Expr.strays : Expr → Nat
  | .empty => 0
  | .column c => c.strays
  | .template text args _ =>
    (text.toList.count '?' - args.length) + Arg.straysFirst (text.toList.count '?') args
  | .comparison _ left right => left.strays + right.strays
  | .membership left values _ => left.strays + Arg.straysFirst values.length values
  | .between left low high _ => left.strays + low.strays + high.strays
  | .and children | .or children | .not children => Expr.straysAll children
  | .caseWhen subject branches otherwise =>
    Arg.straysOption subject + Arg.straysBranches branches + Arg.straysOption otherwise
  | .aliased e name => e.strays + name.toList.count '?'

def Expr.straysAll : List Expr → Nat
  | [] => 0
  | e :: es => e.strays + Expr.straysAll es

end

namespace Expr

theorem straysAll_eq_sum (es : List Expr) : straysAll es = (es.map strays).sum := by
  induction es with
  | nil => rfl
  | cons e es ih => rw [straysAll, ih, List.map_cons, List.sum_cons]

mutual

theorem strays_of_negation? : ∀ {e n : Expr}, e.negation? = some n → n.strays = e.strays
  | .and es, n, h | .or es, n, h => by
    obtain rfl := Option.some.inj h
    rw [strays, strays, straysAll_negations es]
  | .not _, n, h | .comparison _ _ _, n, h | .membership _ _ _, n, h | .between _ _ _ _, n, h => by
    obtain rfl := Option.some.inj h
    rfl
  | .empty, n, h | .column _, n, h | .template _ _ _, n, h | .caseWhen _ _ _, n, h
  | .aliased _ _, n, h => by
    simp [negation?] at h

theorem straysAll_negations : ∀ es : List Expr, straysAll (negations es) = straysAll es
  | [] => rfl
  | e :: es => by
    rw [negations, straysAll, straysAll, straysAll_negations es]
    congr 1
    cases h : e.negation? with
    | none => simp [strays, straysAll]
    | some n => exact strays_of_negation? h

end

theorem length_effective (args : List Arg) : (effective args).length = args.length := by
  rcases effective_cases args with h | ⟨b, flat, rfl | rfl, h⟩
  · rw [h]
  · rw [h]; rfl
  · rw [h]; rfl

/-- A lone argument that is passed on has the marks of what it replaces. -/
theorem straysFirst_effective (n : Nat) (args : List Arg) :
    Arg.straysFirst n (effective args) = Arg.straysFirst n args := by
  rcases effective_cases args with h | ⟨b, flat, hargs, h⟩
  · rw [h]
  · have inner : (template "?" [b] flat).strays = b.strays := by
      simp [strays, Arg.straysFirst]
    rw [h]
    cases n with
    | zero => rcases hargs with rfl | rfl <;> rfl
    | succ n => rcases hargs with rfl | rfl <;> simp [Arg.straysFirst, Arg.strays, inner]

end Expr

/-- The question marks that a step writes as text. -/
def Step.strays : Step → Nat
  | .text cs => cs.count '?'
  | .name word => word.toList.count '?'
  | .column c => c.strays
  | .arg mode a => if mode = .surplus then 0 else a.strays

namespace Expr

open Step (say operand)

theorem strays_templateSteps (flat opened : Bool) (cs : List Char) (args : List Arg) :
    ((templateSteps flat opened cs args).map Step.strays).sum =
      (cs.count '?' - args.length) + Arg.straysFirst (cs.count '?') args := by
  fun_induction templateSteps flat opened cs args with
  | case1 opened args =>
    have none : ((args.map (Step.arg .surplus)).map Step.strays).sum = 0 := by
      simp [Function.comp_def, Step.strays]
    rw [none]
    cases args <;> simp [Arg.straysFirst]
  | case2 opened cs a args ih =>
    -- a mark and an argument fewer leave the difference as it is
    have mode : Step.strays (.arg (if flat || opened then .flat else .operand) a) = a.strays := by
      cases flat || opened <;> rfl
    rw [List.map_cons, List.sum_cons, mode, ih, List.count_cons_self, List.length_cons,
      Arg.straysFirst]
    omega
  | case3 opened c cs a args h ih =>
    have own : Step.strays (.text [c]) = 0 := List.count_eq_zero.mpr (by simpa using Ne.symm h)
    rw [List.map_cons, List.sum_cons, own, ih, List.count_cons_of_ne h, Nat.zero_add]
  | case4 opened cs h => simp [Step.strays, Arg.straysFirst]

theorem strays_commaSteps (args : List Arg) :
    ((commaSteps args).map Step.strays).sum = Arg.straysFirst args.length args := by
  fun_induction commaSteps args with
  | case1 => rfl
  | case2 a => simp [Step.strays, Arg.straysFirst]
  | case3 a args h ih =>
    have comma : (say ",").strays = 0 := rfl
    have here : Step.strays (.arg .operand a) = a.strays := rfl
    simp only [List.map_cons, List.sum_cons, ih, comma, here, List.length_cons, Arg.straysFirst,
      Nat.zero_add]

theorem strays_membershipSteps (left : Expr) (values : List Arg) (negated : Bool) :
    ((membershipSteps left values negated).map Step.strays).sum =
      left.strays + Arg.straysFirst values.length values := by
  unfold membershipSteps
  split
  case h_5 =>
    cases negated <;>
      simp [Step.strays, operand, say, strays_commaSteps, Arg.strays]
  all_goals
    cases negated <;> simp [Step.strays, operand, say, Arg.strays, Arg.straysFirst]

theorem strays_comparisonSteps (left : Expr) (op : Operator) (right : Arg) :
    ((comparisonSteps left op right).map Step.strays).sum = left.strays + right.strays := by
  unfold comparisonSteps
  split
  case h_1 | h_2 => simp [strays_membershipSteps, Arg.straysFirst]
  case h_9 =>
    cases op <;> simp [Step.strays, operand, say, Arg.strays, Operator.spelling]
  all_goals simp [Step.strays, operand, say, Arg.strays]

theorem strays_branchSteps (branches : List (Arg × Arg)) :
    ((branchSteps branches).map Step.strays).sum = Arg.straysBranches branches := by
  fun_induction branchSteps branches with
  | case1 => rfl
  | case2 condition result branches ih =>
    simp [Step.strays, say, ih, Arg.straysBranches, Nat.add_assoc]

theorem strays_optionalSteps {lead : String} (hlead : lead.toList.count '?' = 0) (a : Option Arg) :
    ((optionalSteps lead a).map Step.strays).sum = Arg.straysOption a := by
  cases a with
  | none => rfl
  | some a => simp [optionalSteps, Step.strays, say, hlead, Arg.straysOption]

/-- The steps of an expression write the marks that it has as text. -/
theorem strays_steps {e : Expr} (h : e.isGroup = false) :
    (e.steps.map Step.strays).sum = e.strays := by
  cases e with
  | and es | or es | not es => cases h
  | template text args flat =>
    rw [steps, strays_templateSteps, length_effective, straysFirst_effective, strays]
  | comparison op left right => exact strays_comparisonSteps left op right
  | membership left values negated => exact strays_membershipSteps left values negated
  | between left low high negated =>
    cases negated <;> simp [steps, strays, Step.strays, operand, say, Arg.strays, Nat.add_assoc]
  | caseWhen subject branches otherwise =>
    simp [steps, strays, strays_branchSteps, strays_optionalSteps, Step.strays, say, Nat.add_assoc]
  | _ => simp [steps, strays, Step.strays, operand, say, Arg.strays]

end Expr

/-! ## Marks in fragments -/

namespace Fragment

variable {f g : Fragment}

/-- The question marks in the text of a fragment that are no placeholders. -/
def strays (f : Fragment) : Nat := (f.chars fun _ => []).count '?'

@[simp] theorem strays_blank (d : Dialect) : (blank d).strays = 0 := rfl

@[simp] theorem strays_write (f : Fragment) (cs : List Char) :
    (f.write cs).strays = f.strays + cs.count '?' := by
  rw [strays, chars_write, List.count_append, strays]

@[simp] theorem strays_append (f g : Fragment) : (f.append g).strays = f.strays + g.strays := by
  rw [strays, chars_append, List.count_append, strays, strays]

@[simp] theorem strays_bind (f : Fragment) (v : Value) : (f.bind v).strays = f.strays := by
  rw [strays, chars_bind, List.append_nil, strays]

@[simp] theorem strays_supplyAll (f : Fragment) (vs : List Value) :
    (f.supplyAll vs).strays = f.strays := by
  induction vs generalizing f with
  | nil => rfl
  | cons v vs ih => exact ih (f.supply v)

@[simp] theorem strays_bindAll (f : Fragment) (vs : List Value) :
    (f.bindAll vs).strays = f.strays := by
  fun_induction bindAll f vs with
  | case1 f => rfl
  | case2 f v => exact strays_bind f v
  | case3 f v vs h ih => simp [ih]

@[simp] theorem strays_bracketed (f g : Fragment) :
    (f.bracketed g).strays = f.strays + g.strays := by
  simp [bracketed]

@[simp] theorem strays_appendOperand (f g : Fragment) :
    (f.appendOperand g).strays = f.strays + g.strays := by
  unfold appendOperand
  split
  · exact strays_append f g
  · exact strays_bracketed f g

theorem strays_of_isVoid (h : f.isVoid = true) : f.strays = 0 := by
  rw [strays, chars_of_isVoid h, List.count_nil]

theorem strays_writeName (hd : Sql.IsLegible f.dialect) (name : String) :
    (f.writeName name).strays = f.strays + name.toList.count '?' := by
  have other : f.dialect.quote ≠ '?' := by
    rcases hd.quote with h | h <;> rw [h] <;> decide
  rw [writeName, hd.quoted, strays_write, Text.count_quoted other]

theorem strays_foldl_write (steps : List Step) (f : Fragment) :
    (steps.foldl Step.write f).strays =
      f.strays + (steps.map fun s => (s.write (.blank f.dialect)).strays).sum := by
  rw [strays, Step.chars_foldl_write, List.count_append, List.count_flatMap, strays]
  rfl

theorem strays_writeColumn (hd : Sql.IsLegible f.dialect) (c : Column) :
    (f.writeColumn c).strays = f.strays + c.strays := by
  obtain ⟨table, name, label, raw⟩ := c
  have word (w : String) :
      (Step.write (.blank f.dialect) (.name w)).strays = w.toList.count '?' :=
    (strays_writeName (f := .blank f.dialect) hd w).trans (Nat.zero_add _)
  have text (cs : List Char) :
      (Step.write (.blank f.dialect) (.text cs)).strays = cs.count '?' :=
    (strays_write _ cs).trans (Nat.zero_add _)
  have named : (Step.write (.blank f.dialect)
      (if raw ∨ name = "*" then .text name.toList else .name name)).strays =
        name.toList.count '?' := by
    split
    · exact text _
    · exact word name
  rw [writeColumn_eq_foldl, strays_foldl_write]
  cases table <;> cases label <;>
    simp [Column.steps, Column.strays, Column.spellings, word, text, named]

section Group

variable {separator : List Char}

theorem strays_addJoined (hs : separator.count '?' = 0) (f : Fragment) (ps : List Operand) :
    (f.addJoined separator ps).strays = f.strays + (ps.map (·.fragment.strays)).sum := by
  have added (f : Fragment) (p : Operand) :
      (f.addOperand p).strays = f.strays + p.fragment.strays := by
    unfold addOperand
    split
    · exact strays_bracketed f p.fragment
    · exact strays_append f p.fragment
  fun_induction addJoined f separator ps with
  | case1 f => rfl
  | case2 f p => simpa using added f p
  | case3 f p ps _ ih =>
    rw [ih, strays_write, hs, added, List.map_cons, List.sum_cons]
    omega

theorem strays_addGroup (hs : separator.count '?' = 0) (f : Fragment) (ps : List Operand) :
    (f.addGroup separator ps).fragment.strays = f.strays + (ps.map (·.fragment.strays)).sum := by
  have all : ((shown ps).map (·.fragment.strays)).sum = (ps.map (·.fragment.strays)).sum := by
    induction ps with
    | nil => rfl
    | cons p ps ih =>
      rw [List.map_cons, List.sum_cons, ← ih, shown, List.filter_cons]
      cases h : p.fragment.isVoid with
      | true => simp [strays_of_isVoid h, shown]
      | false => simp [shown]
  rw [← all]
  rcases h : shown ps with _ | ⟨p, _ | ⟨q, qs⟩⟩
  · simp [addGroup_of_shown_nil h]
  · simp [addGroup_of_shown_single h]
  · simp [addGroup_of_shown_many h, strays_addJoined hs]

end Group

/-- Every question mark is a placeholder or none. -/
theorem count_canonical (f : Fragment) : f.canonical.count '?' = f.placeholderCount + f.strays := by
  rw [canonical, strays, placeholderCount, chars, chars]
  induction f.parts with
  | nil => rfl
  | cons p ps ih =>
    simp only [List.flatMap_cons, List.count_append, List.countP_cons, ih]
    cases p with
    | text cs => simp [Part.chars, Part.isParameter]; omega
    | parameter index => simp [Part.chars, Part.isParameter]; omega

end Fragment

/-! ## Marks in written expressions -/

theorem Arg.strays_write {a : Arg} {d : Dialect}
    (inner : ∀ e, a.expr? = some e → (e.fragment d).strays = e.strays) (mode : Mode) :
    (a.write mode (.blank d)).strays = if mode = .surplus then 0 else a.strays := by
  cases a with
  | value v => cases mode <;> simp only [write] <;> rfl
  | list vs =>
    cases mode with
    | surplus => simp [write]
    | flat =>
      rw [write, Fragment.bindFlat]
      split
      · exact Fragment.strays_bind _ _
      · exact Fragment.strays_bindAll _ vs
    | _ =>
      simp only [write, Fragment.bindBracketed, Fragment.writeString]
      split <;> simp [strays]
  | expr e =>
    have here := inner e rfl
    rw [Expr.fragment] at here
    cases mode with
    | surplus => simp [write]
    | operand =>
      rw [write]
      split
      · exact here
      · rw [Fragment.strays_appendOperand, Fragment.dialect_blank, here]
        exact Nat.zero_add _
    | _ => simpa [write, strays] using here
  | verbatim e =>
    have here := inner e rfl
    rw [Expr.fragment] at here
    cases mode with
    | surplus => simp [write]
    | _ => simpa [write, strays] using here

theorem Step.strays_write {s : Step} {d : Dialect} (hd : Sql.IsLegible d)
    (inner : ∀ a, s.arg? = some a → ∀ e, a.expr? = some e → (e.fragment d).strays = e.strays) :
    (s.write (.blank d)).strays = s.strays := by
  cases s with
  | text cs => exact (Fragment.strays_write _ cs).trans (Nat.zero_add _)
  | name word => exact (Fragment.strays_writeName hd word).trans (Nat.zero_add _)
  | column c => exact (Fragment.strays_writeColumn hd c).trans (Nat.zero_add _)
  | arg mode a => exact Arg.strays_write (inner a rfl) mode

namespace Expr

variable {d : Dialect}

theorem strays_refusal {e : Expr} (here : (e.fragment d).strays = e.strays)
    (negated : ∀ n, e.negation? = some n → (n.fragment d).strays = n.strays) :
    (e.refusal d).fragment.strays = e.strays := by
  cases h : e.negation? with
  | some n =>
    rw [refusal_of_some h, ← strays_of_negation? h]
    exact negated n h
  | none =>
    have word : ((Fragment.blank d).writeString "NOT ").strays = 0 := rfl
    rw [refusal_of_none h]
    simp only [Fragment.addRefused]
    split
    · rename_i hvoid
      rw [← here, Fragment.strays_of_isVoid hvoid]
      rfl
    · split <;> simp [word, here]

/-- The question marks in the text of an expression that are no placeholders are those that it has as
text. -/
theorem strays_fragment (hd : Sql.IsLegible d) (e : Expr) : (e.fragment d).strays = e.strays := by
  have group (separator : List Char) (hs : separator.count '?' = 0) (es : List Expr)
      (write : Expr → Operand) (h : ∀ c ∈ es, (write c).fragment.strays = c.strays) :
      ((Fragment.blank d).addGroup separator (es.map write)).fragment.strays = straysAll es := by
    rw [Fragment.strays_addGroup hs, List.map_map, straysAll_eq_sum, Fragment.strays_blank,
      Nat.zero_add]
    exact congrArg List.sum (List.map_congr_left h)
  induction e using writing_induction with
  | steps e h inner =>
    have written (s : Step) (hs : s ∈ e.steps) : (s.write (.blank d)).strays = s.strays :=
      Step.strays_write hd fun a ha c hc => inner s hs a ha c hc
    rw [fragment, write_of_isGroup_eq_false h, Fragment.strays_foldl_write, ← strays_steps h,
      Fragment.strays_blank, Nat.zero_add]
    exact congrArg List.sum (List.map_congr_left written)
  | and es ih =>
    rw [fragment, write_and]
    exact group _ rfl es _ ih
  | or es ih =>
    rw [fragment, write_or]
    exact group _ rfl es _ ih
  | not es ih ihn =>
    rw [fragment, write_not]
    exact group _ rfl es _ fun c hc => strays_refusal (ih c hc) (ihn c hc)

end Expr

theorem Expr.validate_statement (e : Expr) (d : Dialect) : (e.statement d).validate = .ok () := by
  have slots : (e.statement d).slots.length = e.placed.count true := e.length_slots d
  have params : (e.statement d).params.length = e.placed.length := e.length_params d
  have bound : e.placed.count true ≤ e.placed.length := List.count_le_length
  rw [Statement.validate, if_neg (by omega)]

/-- Where placeholders are question marks, a statement passes its check whatever marks are in its
text: these are the placeholders and the marks that stayed text. So the values suffice for the marks
outside of quotes if and only if the marks that stayed text are no more than the values without
placeholders and the marks in quotes. -/
theorem marks_within_params_iff {d : Dialect} (hd : d ∈ [Dialect.mysql, .sqlite]) (e : Expr) :
    let s := e.statement d
    s.validate = .ok () ∧
      s.sql.count '?' = s.placeholderCount + e.strays ∧
      s.params.length = s.placeholderCount + e.placed.count false ∧
      (Text.marks d.quote false none s.sql ≤ s.params.length ↔
        e.strays ≤ e.placed.count false + Text.marks d.quote true none s.sql) := by
  intro s
  obtain ⟨hlegible, mark, other⟩ : Sql.IsLegible d ∧ (∀ n, d.placeholder n = ['?']) ∧ d.quote ≠ '?' := by
    rcases List.mem_pair.mp hd with rfl | rfl
    · exact ⟨Sql.isLegible_of_mem (by simp), fun _ => rfl, by decide⟩
    · exact ⟨Sql.isLegible_of_mem (by simp), fun _ => rfl, by decide⟩
  have text : s.sql = (e.fragment d).canonical := by
    simp only [s, Expr.statement, Fragment.sql_finish, Fragment.sql, Fragment.canonical,
      e.dialect_fragment, mark]
  have slots : s.placeholderCount = (e.fragment d).placeholderCount :=
    Fragment.length_slots_finish (e.fragment d)
  have total : s.sql.count '?' = s.placeholderCount + e.strays := by
    rw [text, Fragment.count_canonical, slots, e.strays_fragment hlegible]
  have bound : s.params.length = s.placeholderCount + e.placed.count false := by
    rw [Statement.placeholderCount, e.length_slots d, e.length_params d]
    exact (List.count_true_add_count_false e.placed).symm
  have apart : Text.marks d.quote false none s.sql + Text.marks d.quote true none s.sql =
      s.sql.count '?' := Text.marks_add_marks other (by simp) s.sql
  refine ⟨e.validate_statement d, total, bound, ?_⟩
  omega

/-- A mark too many that is quoted does no harm. -/
theorem marks_within_params_quoted :
    let e : Expr := .template "a = ? AND b = 'why?'" [.value (.int 1)] false
    let s := e.statement .sqlite
    Dialect.sqlite ∈ [Dialect.mysql, .sqlite] ∧ s.sql = "a = ? AND b = 'why?'".toList ∧
      s.validate = .ok () ∧ s.sql.count '?' = 2 ∧
      Text.marks Dialect.sqlite.quote false none s.sql ≤ s.params.length := by
  intro e s
  have hd : Dialect.sqlite ∈ [Dialect.mysql, .sqlite] := List.mem_cons_of_mem _ List.mem_cons_self
  have text : s.sql = "a = ? AND b = 'why?'".toList :=
    show ((Expr.template "a = ? AND b = 'why?'" [.value (.int 1)] false).statement .sqlite).sql = _
      by cbv
  obtain ⟨valid, -, -, enough⟩ := marks_within_params_iff hd e
  refine ⟨hd, text, valid, ?_, enough.mpr ?_⟩
  · rw [text]
    decide +kernel
  · have quoted : Text.marks Dialect.sqlite.quote true none s.sql = 1 := by
      rw [text]
      decide +kernel
    have left : e.strays = 1 := by decide +kernel
    rw [quoted, left]
    exact Nat.le_add_left 1 _

/-- A statement passes its check with two question marks outside of quotes and one value. -/
theorem unbound_mark_passes_check :
    let e : Expr := .template "a = ? AND b = ?" [.value (.int 1)] false
    let s := e.statement .mysql
    s.sql = "a = ? AND b = ?".toList ∧ s.params = [.int 1] ∧ s.placeholderCount = 1 ∧
      Text.marks Dialect.mysql.quote false none s.sql = 2 ∧ s.validate = .ok () := by
  intro e s
  have written : s = ⟨"a = ? AND b = ?".toList, [.int 1], [⟨4, 5, 0⟩]⟩ :=
    show (Expr.template "a = ? AND b = ?" [.value (.int 1)] false).statement .mysql = _ by cbv
  rw [written]
  exact ⟨rfl, rfl, rfl, by decide +kernel, rfl⟩

end SqlClause
