import SqlClause.Proofs.AbsentParts
import SqlClause.Proofs.ParameterOrder
import SqlClause.Proofs.SignedWriting

/-! # Parts without a text

A group leaves out the parts that write neither text nor values. A part that binds values and has no
text is kept, with a separator next to it. Such parts come of templates that bind all their arguments
without a place for them, and of nothing else. -/

namespace SqlClause

/-- What the dialect writes for names and parameters is never empty. -/
structure Dialect.IsVisible (d : Dialect) : Prop where
  quoted : ∀ name, d.quoted name ≠ []
  placeholder : ∀ index, d.placeholder index ≠ []

namespace Fragment

theorem chars_eq_nil_iff {f : Fragment} {mark : Nat → List Char} (h : ∀ index, mark index ≠ []) :
    f.chars mark = [] ↔ f.isWordless = true := by
  rw [chars, List.flatMap_eq_nil_iff, isWordless, List.all_eq_true]
  refine forall₂_congr fun p _ => ?_
  cases p with
  | text cs => simp [Part.chars]
  | parameter index => simp [Part.chars, h]

section Operations

variable (f g : Fragment)

@[simp] theorem isWordless_supplyAll (vs : List Value) :
    (f.supplyAll vs).isWordless = f.isWordless := by
  induction vs generalizing f with
  | nil => rfl
  | cons v vs ih => rw [supplyAll, List.foldl_cons, ← supplyAll, ih, isWordless_supply]

theorem isWordless_bindAll {vs : List Value} (h : vs ≠ []) : (f.bindAll vs).isWordless = false := by
  fun_induction bindAll f vs with
  | case1 => exact absurd rfl h
  | case2 f v => exact isWordless_bind f v
  | case3 f v vs hvs ih => exact ih hvs

/-- What is added to a text is empty if the fragment that is added has no text. -/
theorem exists_chars_append {mark : Nat → List Char} (h : ∀ index, mark index ≠ []) :
    ∃ added, (f.append g).chars mark = f.chars mark ++ added ∧
      (added = [] ↔ g.isWordless = true) :=
  ⟨_, chars_append f g mark, chars_eq_nil_iff fun index => h (index + f.params.length)⟩

theorem exists_chars_appendOperand {mark : Nat → List Char} (h : ∀ index, mark index ≠ []) :
    ∃ added, (f.appendOperand g).chars mark = f.chars mark ++ added ∧
      (added = [] ↔ g.isWordless = true) := by
  rw [appendOperand]
  split
  · exact exists_chars_append f g h
  · rename_i atomic
    have worded := isWordless_of_not_isAtomic atomic
    refine ⟨'(' :: (g.chars (fun index => mark (index + f.params.length)) ++ [')']), ?_, ?_⟩
    · simp [bracketed]
    · simp [worded]

theorem isWordless_embed (mode : Mode) (whole : Bool) (h : mode ≠ .surplus) :
    (f.embed g mode whole).isWordless = (f.isWordless && g.isWordless) := by
  cases mode <;> cases whole <;> simp_all [embed]

variable {ps : List Operand}

theorem shown_of_isWordless (h : ∀ p ∈ ps, p.fragment.isWordless = true) :
    shown ps = ps.filter (!·.fragment.params.isEmpty) :=
  List.filter_congr fun p hp => by rw [isVoid_eq, h p hp, Bool.and_true]

theorem mem_shown_of_isWordless_eq_false {p : Operand} (hp : p ∈ ps)
    (h : p.fragment.isWordless = false) : p ∈ shown ps :=
  List.mem_filter.mpr ⟨hp, by rw [isVoid_eq, h, Bool.and_false]; rfl⟩

/-- A group has no text if its operands have none and at most one of them is written. -/
theorem isWordless_addGroup (separator : List Char) :
    (f.addGroup separator ps).fragment.isWordless =
      (f.isWordless && (ps.all (·.fragment.isWordless) &&
        ps.countP (!·.fragment.params.isEmpty) ≤ 1)) := by
  cases all : ps.all (·.fragment.isWordless) with
  | true =>
    have wordless := List.all_eq_true.mp all
    have shown := shown_of_isWordless wordless
    rw [List.countP_eq_length_filter, ← shown]
    match h : Fragment.shown ps with
    | [] => simp [addGroup_of_shown_nil h]
    | [p] =>
      have hp : p ∈ ps := (List.mem_filter.mp (h ▸ List.mem_singleton_self p)).1
      simp [addGroup_of_shown_single h, wordless p hp]
    | p :: q :: qs => simp [addGroup_of_shown_many h]
  | false =>
    obtain ⟨p, hp, worded⟩ := List.all_eq_false.mp all
    have mem := mem_shown_of_isWordless_eq_false hp (Bool.eq_false_iff.mpr worded)
    match h : Fragment.shown ps with
    | [] => rw [h] at mem; cases mem
    | [q] =>
      obtain rfl : p = q := List.mem_singleton.mp (h ▸ mem)
      simp [addGroup_of_shown_single h, worded]
    | q :: r :: qs => simp [addGroup_of_shown_many h]

end Operations

end Fragment

/-- A raw column with an empty name and nothing else. -/
def Column.isMute (c : Column) : Bool := c.table = none ∧ c.label = none ∧ c.raw ∧ c.name = ""

mutual

/-- Whether an argument writes no text where a template has a mark. -/
def Arg.isMute : Arg → Bool
  | .value _ | .list _ => false
  | .expr e | .verbatim e => e.isMute false

/-- Whether there are as many arguments as places, and those that take a place write no text. -/
def Arg.isMuteFirst : Nat → List Arg → Bool
  | 0, _ => true
  | _ + 1, [] => false
  | n + 1, a :: args => a.isMute && Arg.isMuteFirst n args

/-- Whether an expression, or its negation, writes no text. A template may have values all the same,
but then its negation has the word of negation. -/
def Expr.isMute (negated : Bool) : Expr → Bool
  | .empty => true
  | .column c => c.isMute
  | .template text args flat =>
    text.toList.all (· = '?') && Arg.isMuteFirst text.toList.length args &&
      (!negated || (Expr.template text args flat).scalars.isEmpty)
  | .and children | .or children =>
    Expr.areMute negated children && children.countP (!·.scalars.isEmpty) ≤ 1
  | .not children =>
    Expr.areMute (!negated) children && children.countP (!·.scalars.isEmpty) ≤ 1
  | .comparison _ _ _ | .membership _ _ _ | .between _ _ _ _ | .caseWhen _ _ _ | .aliased _ _ => false

def Expr.areMute (negated : Bool) : List Expr → Bool
  | [] => true
  | e :: es => e.isMute negated && Expr.areMute negated es

end

namespace Expr

theorem areMute_eq_all (negated : Bool) (es : List Expr) :
    areMute negated es = es.all (isMute negated) := by
  induction es with
  | nil => rfl
  | cons e es ih => rw [areMute, ih, List.all_cons]

theorem countP_negations (es : List Expr) :
    (negations es).countP (!·.scalars.isEmpty) = es.countP (!·.scalars.isEmpty) := by
  rw [negations_eq_map, List.countP_map]
  congr 1
  funext e
  cases h : e.negation? with
  | none => simp [scalars_not, h]
  | some n => simp [scalars_of_negation? h, h]

theorem isMute_not_singleton (negated : Bool) (e : Expr) :
    (Expr.not [e]).isMute negated = e.isMute (!negated) := by
  have single : [e].countP (!·.scalars.isEmpty) ≤ 1 := List.countP_le_length
  rw [isMute, areMute, areMute, decide_eq_true single, Bool.and_true, Bool.and_true]

mutual

/-- What the negation writes is what is written under a negation. -/
theorem isMute_of_negation? : ∀ {e n : Expr} (negated : Bool), e.negation? = some n →
    n.isMute negated = e.isMute (!negated)
  | .and es, n, negated, h | .or es, n, negated, h => by
    obtain rfl := Option.some.inj h
    rw [isMute, isMute, areMute_negations es, countP_negations]
  | .not es, n, negated, h => by
    obtain rfl := Option.some.inj h
    rw [isMute, isMute, Bool.not_not]
  | .comparison _ _ _, n, negated, h | .membership _ _ _, n, negated, h
  | .between _ _ _ _, n, negated, h => by
    obtain rfl := Option.some.inj h
    rfl
  | .empty, n, negated, h | .column _, n, negated, h | .template _ _ _, n, negated, h
  | .caseWhen _ _ _, n, negated, h | .aliased _ _, n, negated, h => by
    simp [negation?] at h

theorem areMute_negations : ∀ (es : List Expr) {negated : Bool},
    areMute negated (negations es) = areMute (!negated) es
  | [], _ => rfl
  | e :: es, negated => by
    rw [negations, areMute, areMute, areMute_negations es]
    congr 1
    cases h : e.negation? with
    | none => exact isMute_not_singleton negated e
    | some n => exact isMute_of_negation? negated h

end

theorem isMuteFirst_effective (n : Nat) (args : List Arg) :
    Arg.isMuteFirst n (effective args) = Arg.isMuteFirst n args := by
  rcases effective_cases args with h | ⟨b, flat, hargs, h⟩
  · rw [h]
  · have inner : (template "?" [b] flat).isMute false = b.isMute := by
      simp [isMute, Arg.isMuteFirst]
    rw [h]
    cases n with
    | zero => rcases hargs with rfl | rfl <;> rfl
    | succ n => rcases hargs with rfl | rfl <;> simp [Arg.isMuteFirst, Arg.isMute, inner]

end Expr

/-! ## What the steps write -/

section Names

variable {d : Dialect} (hd : d.IsVisible)

include hd

theorem Step.isWordless_name (name : String) :
    ((Step.name name).write (.blank d)).isWordless = false := by
  rw [Step.write, Fragment.writeName, Fragment.isWordless_write, Fragment.dialect_blank,
    List.isEmpty_eq_false_iff.mpr (hd.quoted _), Bool.and_false]

theorem Step.isWordless_column (c : Column) :
    ((Step.column c).write (.blank d)).isWordless = c.isMute := by
  have named := Step.isWordless_name hd
  obtain ⟨table, name, label, raw⟩ := c
  have empty : name.toList.isEmpty = decide (name = "") := by
    rw [Bool.eq_iff_iff, List.isEmpty_iff, String.toList_eq_nil_iff, decide_eq_true_iff]
  rw [Step.write, Fragment.writeColumn_eq_foldl, Step.isWordless_foldl_write, Column.steps,
    Column.isMute]
  cases table with
  | some table => simp [named]
  | none =>
    cases label with
    | some label => simp [named]
    | none =>
      by_cases star : name = "*"
      · simp [star, Step.isWordless_text]
      · cases raw <;> simp [star, Step.isWordless_text, named, empty]

end Names

section Arguments

variable {d : Dialect}

theorem Arg.isWordless_write_surplus (a : Arg) (f : Fragment) :
    (a.write .surplus f).isWordless = f.isWordless := by
  cases a <;> simp [Arg.write]

theorem Arg.isWordless_write {a : Arg} {mode : Mode} (hmode : mode ≠ .surplus)
    (inner : ∀ e, a.expr? = some e → (e.fragment d).isWordless = e.isMute false) :
    (a.write mode (.blank d)).isWordless = a.isMute := by
  cases a with
  | value v => cases mode <;> simp_all [Arg.write, Arg.isMute]
  | list vs =>
    by_cases hvs : vs = []
    · cases mode <;>
        simp_all [Arg.write, Arg.isMute, Fragment.bindFlat, Fragment.bindBracketed,
          Fragment.writeString]
    · have bound (f : Fragment) := Fragment.isWordless_bindAll f hvs
      cases mode <;>
        simp_all [Arg.write, Arg.isMute, Fragment.bindFlat, Fragment.bindBracketed]
  | expr e =>
    rw [Arg.write_expr, Fragment.isWordless_embed _ _ _ _ hmode, Fragment.dialect_blank,
      inner e rfl, Arg.isMute]
    rfl
  | verbatim e =>
    rw [Arg.write_verbatim, Fragment.isWordless_embed _ _ _ _ hmode, Fragment.dialect_blank,
      inner e rfl, Arg.isMute]
    rfl

/-- A template writes no text if it has only marks, and each takes an argument that writes none. -/
theorem Expr.all_isWordless_templateSteps (flat opened : Bool) (cs : List Char) (args : List Arg)
    (inner : ∀ s ∈ templateSteps flat opened cs args, ∀ a, s.arg? = some a → ∀ e, a.expr? = some e →
      (e.fragment d).isWordless = e.isMute false) :
    ((templateSteps flat opened cs args).all fun s => (s.write (.blank d)).isWordless) =
      (cs.all (· = '?') && Arg.isMuteFirst cs.length args) := by
  fun_induction templateSteps flat opened cs args with
  | case1 opened args =>
    have silent (a : Arg) : (Step.write (.blank d) (.arg .surplus a)).isWordless = true :=
      a.isWordless_write_surplus (.blank d)
    simp [silent, Arg.isMuteFirst]
  | case2 opened cs a args ih =>
    have placed : (if (flat || opened) = true then Mode.flat else .operand) ≠ .surplus := by
      split <;> simp
    have here : (Step.write (.blank d)
        (.arg (if (flat || opened) = true then .flat else .operand) a)).isWordless = a.isMute :=
      Arg.isWordless_write placed (inner _ List.mem_cons_self a rfl)
    rw [List.all_cons, here, ih fun s hs => inner s (List.mem_cons_of_mem _ hs), List.all_cons,
      List.length_cons, Arg.isMuteFirst, decide_eq_true rfl, Bool.true_and]
    exact Bool.and_left_comm _ _ _
  | case3 opened c cs a args h ih =>
    rw [List.all_cons, Step.isWordless_text, List.all_cons, decide_eq_false h]
    simp
  | case4 opened cs h =>
    cases cs with
    | nil => simp [Step.isWordless_text, Arg.isMuteFirst]
    | cons c cs => simp [Step.isWordless_text, Arg.isMuteFirst]

end Arguments

/-! ## What expressions write -/

namespace Expr

open Step (say operand)

variable {d : Dialect}

theorem isWordless_addRefused (f g : Fragment) (whole : Bool) :
    (f.addRefused g whole).isWordless = (f.isWordless && g.isVoid) := by
  rw [Fragment.addRefused]
  split
  · simp_all
  · split <;> simp_all [Fragment.writeString]

/-- Where there is no form for the negation, it is without a text if nothing is written. -/
theorem isMute_true_of_negation?_eq_none {e : Expr} (h : e.negation? = none) :
    e.isMute true = (e.scalars.isEmpty && e.isMute false) := by
  cases e with
  | empty | column c =>
    have unbound {e : Expr} (hm : e.marks = []) (ho : e.operands = []) : e.scalars = [] := by
      rw [scalars_of_marks_eq_nil hm, ho, List.flatMap_nil]
    rw [unbound rfl rfl]
    rfl
  | template text args flat =>
    simp only [isMute, Bool.not_true, Bool.not_false, Bool.false_or, Bool.true_or, Bool.and_true]
    exact Bool.and_comm _ _
  | caseWhen | aliased => simp [isMute]
  | _ => simp [negation?] at h

theorem isWordless_refusal {e : Expr}
    (here : (e.fragment d).isWordless = e.isMute false)
    (negated : ∀ n, e.negation? = some n → (n.fragment d).isWordless = n.isMute false) :
    (e.refusal d).fragment.isWordless = e.isMute true := by
  cases h : e.negation? with
  | none =>
    rw [refusal_of_none h, isWordless_addRefused, Fragment.isVoid_eq, here, params_fragment,
      isMute_true_of_negation?_eq_none h]
    rfl
  | some n =>
    rw [refusal_of_some h]
    exact (negated n h).trans (isMute_of_negation? false h)

theorem params_member (negated : Bool) (d : Dialect) (e : Expr) :
    (e.member negated d).fragment.params = e.scalars := by
  cases negated with
  | false => exact params_fragment e d
  | true => exact params_refusal d e.params_write fun n _ => n.params_write

theorem isWordless_addGroup_member (negated : Bool) {es : List Expr}
    (h : ∀ e ∈ es, (e.member negated d).fragment.isWordless = e.isMute negated)
    (separator : List Char) :
    ((Fragment.blank d).addGroup separator (es.map (member negated d))).fragment.isWordless =
      (areMute negated es && es.countP (!·.scalars.isEmpty) ≤ 1) := by
  have silent : (es.map (member negated d)).all (·.fragment.isWordless) = areMute negated es := by
    rw [areMute_eq_all, List.all_map, Bool.eq_iff_iff, List.all_eq_true, List.all_eq_true]
    exact forall₂_congr fun e he => by rw [Function.comp, h e he]
  have binding : (es.map (member negated d)).countP (!·.fragment.params.isEmpty) =
      es.countP (!·.scalars.isEmpty) := by
    rw [List.countP_map]
    congr 1
    funext e
    rw [Function.comp, params_member]
  rw [Fragment.isWordless_addGroup, silent, binding, Fragment.isWordless_blank, Bool.true_and]

/-- An expression writes no text if and only if it is made of absent parts and of templates that only
bind values. -/
theorem isWordless_fragment (hd : d.IsVisible) (e : Expr) :
    (e.fragment d).isWordless = e.isMute false := by
  induction e using writing_induction with
  | steps e h inner =>
    cases e with
    | empty =>
      rw [fragment, write_of_isGroup_eq_false h]
      rfl
    | column c =>
      rw [fragment, write_of_isGroup_eq_false h]
      exact Step.isWordless_column hd c
    | template text args flat =>
      rw [fragment, write_of_isGroup_eq_false h, Step.isWordless_foldl_write, isMute, steps,
        Fragment.dialect_blank, all_isWordless_templateSteps _ _ _ _ inner, isMuteFirst_effective]
      simp
    | comparison op left right => exact isWordless_fragment_comparison op left right
    | membership left values negated => exact isWordless_fragment_membership left values negated
    | between left low high negated => exact isWordless_fragment_between left low high negated
    | caseWhen subject branches otherwise =>
      have mem : Step.text "CASE".toList ∈ (caseWhen subject branches otherwise).steps :=
        List.mem_cons_self
      exact isWordless_fragment_of_text_mem rfl (by simp) mem
    | aliased e name =>
      have mem : Step.text " AS ".toList ∈ (aliased e name).steps := by simp [steps, say]
      exact isWordless_fragment_of_text_mem rfl (by simp) mem
    | and | or | not => cases h
  | and es ih =>
    rw [fragment, write_and, isMute]
    exact isWordless_addGroup_member false ih _
  | or es ih =>
    rw [fragment, write_or, isMute]
    exact isWordless_addGroup_member false ih _
  | not es ih ihn =>
    rw [fragment, write_not, isMute]
    exact isWordless_addGroup_member true
      (fun e he => isWordless_refusal (ih e he) (ihn e he)) _

theorem PassesOn.isWordless_eq {e c : Expr} (h : PassesOn d e c) :
    (e.fragment d).isWordless = (c.fragment d).isWordless := by
  have passed {separator : List Char} {es : List Expr} {c : Expr} (hw : written d es = [c]) :
      ((Fragment.blank d).addGroup separator
        (es.map fun e => e.write (.blank d))).fragment.isWordless = (c.fragment d).isWordless := by
    have shown := shown_map_write es d
    rw [hw] at shown
    rw [Fragment.addGroup_of_shown_single shown, Fragment.isWordless_append,
      Fragment.isWordless_blank, Bool.true_and]
    rfl
  induction h with
  | self => rfl
  | and hw rest ih =>
    rw [← ih, fragment, write_and]
    exact passed hw
  | or hw rest ih =>
    rw [← ih, fragment, write_or]
    exact passed hw
  | not hw rest ih =>
    rw [← ih, fragment, write_not_eq_write_and, write_and]
    exact passed hw

/-- Brackets stand around a text. -/
theorem isWordless_of_isBracketed {e : Expr} (h : e.isBracketed d = true) :
    (e.fragment d).isWordless = false := by
  obtain ⟨c, hpass, hloose⟩ := (isBracketed_iff e).mp h
  obtain ⟨hg, cs, hcs, hmem⟩ := exists_text_mem_steps_of_isLoose hloose
  rw [hpass.isWordless_eq]
  exact isWordless_fragment_of_text_mem hg hcs hmem

theorem nil_mem_partTexts_iff {mark : Nat → List Char} (h : ∀ index, mark index ≠ []) (n : Nat)
    (cs : List Expr) :
    [] ∈ partTexts d mark n cs ↔ ∃ c ∈ cs, (c.fragment d).isWordless = true := by
  induction cs generalizing n with
  | nil => simp [partTexts]
  | cons c cs ih =>
    have text := Fragment.chars_eq_nil_iff (f := c.fragment d) fun index => h (index + n)
    have here : [] = (if c.isBracketed d then
        '(' :: ((c.fragment d).chars (fun index => mark (index + n)) ++ [')'])
        else (c.fragment d).chars fun index => mark (index + n)) ↔
          (c.fragment d).isWordless = true := by
      split
      · rename_i hb
        simp [isWordless_of_isBracketed hb]
      · rw [eq_comm, text]
    rw [partTexts, List.mem_cons, ih, here, List.exists_mem_cons_iff]

end Expr

/-! ## The parts of groups -/

open SqlClause.Expr (written partTexts)

namespace Connective

/-- What a group writes for its children. -/
def members : Connective → List Expr → List Expr
  | .and, es | .or, es => es
  | .not, es => Expr.negations es

variable {d : Dialect}

theorem write_group (k : Connective) (es : List Expr) (f : Fragment) :
    (k.group es).write f =
      f.addGroup k.separator ((k.members es).map fun c => c.write (.blank f.dialect)) := by
  rw [Expr.write_group_eq_addGroup]
  cases k with
  | and | or => rfl
  | not => rw [members, Expr.map_write_negations, negates]

theorem exists_mem_members_iff (k : Connective) (es : List Expr) :
    (∃ c ∈ k.members es, c.isMute false = true ∧ c.scalars ≠ []) ↔
      ∃ e ∈ es, e.isMute k.negates = true ∧ e.scalars ≠ [] := by
  cases k with
  | and | or => rfl
  | not =>
    have turned (e : Expr) : (e.negation?.getD (.not [e])).isMute false = e.isMute true ∧
        (e.negation?.getD (.not [e])).scalars = e.scalars := by
      cases h : e.negation? with
      | none => exact ⟨Expr.isMute_not_singleton false e, by simp [Expr.scalars_not]⟩
      | some n => exact ⟨Expr.isMute_of_negation? false h, Expr.scalars_of_negation? h⟩
    simp only [members, negates, Expr.negations_eq_map, List.mem_map, exists_exists_and_eq_and,
      turned]

/-- The text of a group that writes these expressions: a single one as it is, several with their
brackets and a separator between each two, all of them in brackets. -/
def text (k : Connective) (d : Dialect) : List Expr → List Char
  | [] => []
  | [c] => (c.statement d).sql
  | a :: b :: cs => '(' :: (k.separator.intercalate
      (partTexts d (fun index => d.placeholder (index + 1)) 0 (a :: b :: cs)) ++ [')'])

theorem sql_statement_group (k : Connective) (es : List Expr) (d : Dialect) :
    ((k.group es).statement d).sql = k.text d (written d (k.members es)) := by
  have shown := Expr.shown_map_write (k.members es) d
  rw [Expr.statement, Fragment.sql_finish, Fragment.sql, Expr.dialect_fragment, Expr.fragment,
    write_group, Fragment.dialect_blank]
  rcases h : written d (k.members es) with _ | ⟨c, _ | ⟨c', cs⟩⟩
  · rw [h] at shown
    rw [Fragment.addGroup_of_shown_nil shown]
    rfl
  · rw [h, List.map_singleton] at shown
    have alone : (Fragment.blank d).append (c.write (.blank d)).fragment = c.fragment d :=
      (c.fragment_write (.blank d)).symm
    rw [Fragment.addGroup_of_shown_single shown, alone, text, Expr.statement, Fragment.sql_finish,
      Fragment.sql, Expr.dialect_fragment]
  · have many : 2 ≤ (written d (k.members es)).length := by simp [h]
    rw [Expr.chars_addGroup_of_written many, h, text]

end Connective

theorem Dialect.isVisible_of_mem {d : Dialect} (hd : d ∈ [Dialect.mysql, .postgres, .sqlite]) :
    d.IsVisible := by
  simp only [List.mem_cons, List.not_mem_nil, or_false] at hd
  rcases hd with rfl | rfl | rfl <;>
    exact ⟨fun _ => List.cons_ne_nil _ _, fun _ => List.cons_ne_nil _ _⟩

namespace Expr

variable {d : Dialect}

theorem sql_statement_eq_nil_iff (hd : d.IsVisible) (e : Expr) :
    (e.statement d).sql = [] ↔ e.isMute false = true := by
  rw [statement, Fragment.sql_finish, Fragment.sql, dialect_fragment,
    Fragment.chars_eq_nil_iff fun index => hd.placeholder (index + 1), isWordless_fragment hd]

/-- Where the word of negation is written, an operand follows unless the expression has no text. -/
theorem sql_statement_not (hd : d.IsVisible) {e : Expr} (hn : e.negation? = none)
    (full : ¬e.IsAbsent d) :
    ∃ operand, ((Expr.not [e]).statement d).sql = "NOT ".toList ++ operand ∧
      (operand = [] ↔ e.isMute false = true) := by
  have word (mark : Nat → List Char) :
      ((Fragment.blank d).writeString "NOT ").chars mark = "NOT ".toList := Fragment.chars_write _ _ _
  have shown : ((Expr.not [e]).fragment d) =
      (Fragment.blank d).addRefused (e.fragment d) e.isCase := by
    have alone := refusal_eq_write e d
    rw [hn, Option.getD_none, refusal_of_none hn] at alone
    rw [fragment, ← alone]
  have visible (index : Nat) : d.placeholder (index + 1) ≠ [] := hd.placeholder (index + 1)
  rw [isAbsent_iff] at full
  rw [statement, Fragment.sql_finish, Fragment.sql, dialect_fragment, shown, Fragment.addRefused,
    if_neg full, ← isWordless_fragment hd]
  split
  · rw [← word fun index => d.placeholder (index + 1)]
    exact Fragment.exists_chars_append _ _ visible
  · rw [← word fun index => d.placeholder (index + 1)]
    exact Fragment.exists_chars_appendOperand _ _ visible

end Expr

/-- The text of a group is made of its parts, with a separator between each two. In a dialect in
which names and parameters have a text, a part is empty if and only if a child binds values and has,
as it is or negated, no text, and so it is with the operand that stands after a word of negation. The
expressions without a text are those that `Expr.isMute` finds. -/
theorem group_parts_have_texts_iff (d : Dialect) :
    (∀ (k : Connective) (es : List Expr),
        ((k.group es).statement d).sql = k.text d (written d (k.members es)) ∧
          (d.IsVisible →
            ([] ∈ partTexts d (fun index => d.placeholder (index + 1)) 0 (written d (k.members es)) ↔
              ∃ e ∈ es, e.isMute k.negates = true ∧ e.scalars ≠ []))) ∧
      ∀ e : Expr, d.IsVisible →
        ((e.statement d).sql = [] ↔ e.isMute false = true) ∧
          (e.negation? = none → ¬e.IsAbsent d →
            ∃ operand, ((Expr.not [e]).statement d).sql = "NOT ".toList ++ operand ∧
              (operand = [] ↔ e.isMute false = true)) := by
  refine ⟨fun k es => ⟨k.sql_statement_group es d, fun hd => ?_⟩, fun e hd =>
    ⟨Expr.sql_statement_eq_nil_iff hd e, Expr.sql_statement_not hd⟩⟩
  have binding (c : Expr) : c ∈ written d (k.members es) ∧ (c.fragment d).isWordless = true ↔
      c ∈ k.members es ∧ c.isMute false = true ∧ c.scalars ≠ [] := by
    rw [written, List.mem_filter, Fragment.isVoid_eq, Expr.params_fragment,
      Expr.isWordless_fragment hd]
    cases c.isMute false <;> simp
  rw [Expr.nil_mem_partTexts_iff fun index => hd.placeholder (index + 1),
    ← k.exists_mem_members_iff]
  exact exists_congr binding

/-- A template that has an argument and no text leaves a separator behind the bracket. -/
theorem group_parts_have_texts_iff_bound :
    let silent : Expr := .template "" [.value (.int 1)] false
    let es := [silent, .comparison .eq (.column (.named "a")) (.value (.int 2))]
    Dialect.mysql.IsVisible ∧ [] ∈ partTexts .mysql (fun _ => ['?']) 0 (written .mysql es) := by
  intro silent es
  have visible := Dialect.isVisible_of_mem (d := .mysql) List.mem_cons_self
  have bound : silent.scalars = [.int 1] := by
    have operands : silent.operands = [.value (.int 1)] := rfl
    rw [Expr.scalars_of_marks_eq_nil rfl, operands, List.flatMap_singleton, Arg.scalars_value]
  exact ⟨visible, (((group_parts_have_texts_iff .mysql).1 .and es).2 visible).mpr
    ⟨silent, List.mem_cons_self, rfl, bound ▸ List.cons_ne_nil _ _⟩⟩

/-- The text of the group and that of a negation where nothing stands next to the word. -/
theorem dangling_words :
    let silent : Expr := .template "" [.value (.int 1)] false
    let e := Expr.and [silent, .comparison .eq (.column (.named "a")) (.value (.int 2))]
    (e.statement .mysql).sql = "( AND \x60a\x60 = ?)".toList ∧
      (e.statement .mysql).params = [.int 1, .int 2] ∧
      ((Expr.not [silent]).statement .mysql).sql = "NOT ".toList := by
  exact ⟨by cbv, by cbv, by cbv⟩

end SqlClause
