import SqlClause.Proofs.WritingInduction

/-! # The spellings in an expression

The text of an expression is made of the texts of its templates, the names in it, and words and signs
that are always the same. -/

namespace SqlClause

/-- The characters of the words and signs that are written between things, and those by which an
atomic text is recognised. No quote is among them. -/
def isSignificant (c : Char) : Bool := c.isAlphanum || " _$()?'*.-,=<>".toList.contains c

def Column.spellings (c : Column) : List String := c.table.toList ++ c.name :: c.label.toList

mutual

/-- The texts of templates and the names that stand in an argument, from left to right. -/
def Arg.spellings : Arg → List String
  | .value _ | .list _ => []
  | .expr e | .verbatim e => e.spellings

def Arg.spellingsAll : List Arg → List String
  | [] => []
  | a :: args => a.spellings ++ Arg.spellingsAll args

def Arg.spellingsOption : Option Arg → List String
  | none => []
  | some a => a.spellings

def Arg.spellingsBranches : List (Arg × Arg) → List String
  | [] => []
  | (condition, result) :: branches =>
    condition.spellings ++ result.spellings ++ Arg.spellingsBranches branches

def Expr.spellings : Expr → List String
  | .empty => []
  | .column c => c.spellings
  | .template text args _ => text :: Arg.spellingsAll args
  | .comparison _ left right => left.spellings ++ right.spellings
  | .membership left values _ => left.spellings ++ Arg.spellingsAll values
  | .between left low high _ => left.spellings ++ low.spellings ++ high.spellings
  | .and children | .or children | .not children => Expr.spellingsAll children
  | .caseWhen subject branches otherwise =>
    Arg.spellingsOption subject ++ Arg.spellingsBranches branches ++ Arg.spellingsOption otherwise
  | .aliased e name => e.spellings ++ [name]

def Expr.spellingsAll : List Expr → List String
  | [] => []
  | e :: es => e.spellings ++ Expr.spellingsAll es

end

theorem Expr.spellings_subset_spellingsAll {es : List Expr} {e : Expr} (he : e ∈ es) :
    e.spellings ⊆ spellingsAll es := by
  induction es with
  | nil => cases he
  | cons c es ih =>
    rw [spellingsAll]
    rcases List.mem_cons.mp he with rfl | he
    · exact List.subset_append_left _ _
    · exact List.subset_append_of_subset_right _ (ih he)

/-- Every character of the spellings has the property. -/
def AreSpelledIn (P : Char → Prop) (spellings : List String) : Prop :=
  ∀ s ∈ spellings, ∀ c ∈ s.toList, P c

namespace AreSpelledIn

variable {P : Char → Prop} {s : String} {xs ys : List String}

@[simp] theorem nil : AreSpelledIn P [] := List.forall_mem_nil _

@[simp] theorem cons_iff :
    AreSpelledIn P (s :: xs) ↔ (∀ c ∈ s.toList, P c) ∧ AreSpelledIn P xs :=
  List.forall_mem_cons

@[simp] theorem append_iff : AreSpelledIn P (xs ++ ys) ↔ AreSpelledIn P xs ∧ AreSpelledIn P ys :=
  List.forall_mem_append

theorem arg_of_mem {args : List Arg} (h : AreSpelledIn P (Arg.spellingsAll args)) {a : Arg}
    (ha : a ∈ args) : AreSpelledIn P a.spellings := by
  induction args with
  | nil => cases ha
  | cons b args ih =>
    obtain ⟨here, rest⟩ := append_iff.mp h
    rcases List.mem_cons.mp ha with rfl | ha
    · exact here
    · exact ih rest ha

theorem expr_of_mem {es : List Expr} (h : AreSpelledIn P (Expr.spellingsAll es)) {e : Expr}
    (he : e ∈ es) : AreSpelledIn P e.spellings :=
  fun s hs => h s (Expr.spellings_subset_spellingsAll he hs)

end AreSpelledIn

namespace Expr

mutual

theorem spellings_of_negation? : ∀ {e n : Expr}, e.negation? = some n → n.spellings = e.spellings
  | .and es, n, h | .or es, n, h => by
    obtain rfl := Option.some.inj h
    rw [spellings, spellings, spellingsAll_negations es]
  | .not _, n, h | .comparison _ _ _, n, h | .membership _ _ _, n, h | .between _ _ _ _, n, h => by
    obtain rfl := Option.some.inj h
    rfl
  | .empty, n, h | .column _, n, h | .template _ _ _, n, h | .caseWhen _ _ _, n, h
  | .aliased _ _, n, h => by
    simp [negation?] at h

theorem spellingsAll_negations : ∀ es : List Expr, spellingsAll (negations es) = spellingsAll es
  | [] => rfl
  | e :: es => by
    rw [negations, spellingsAll, spellingsAll, spellingsAll_negations es]
    congr 1
    cases h : e.negation? with
    | none => simp [spellings, spellingsAll]
    | some n => exact spellings_of_negation? h

end

end Expr

/-! ## The spellings in steps -/

/-- Every character that a step writes itself has the property, and so have those of the spellings in
its argument. -/
def Step.IsSpelledIn (P : Char → Prop) : Step → Prop
  | .text cs => ∀ c ∈ cs, P c
  | .name word => ∀ c ∈ word.toList, P c
  | .column c => AreSpelledIn P c.spellings
  | .arg _ a => AreSpelledIn P a.spellings

theorem Step.IsSpelledIn.of_expr? {P : Char → Prop} {s : Step} (h : s.IsSpelledIn P) {a : Arg}
    (ha : s.arg? = some a) {c : Expr} (hc : a.expr? = some c) : AreSpelledIn P c.spellings := by
  cases s with
  | arg mode b =>
    obtain rfl : b = a := Option.some.inj ha
    cases b <;> simp_all [Arg.expr?, Step.IsSpelledIn, Arg.spellings]
  | _ => cases ha

namespace Expr

open Step (say operand)

variable {P : Char → Prop} (significant : ∀ c, isSignificant c = true → P c)

section Plain

theorem isSpelledIn_operand {e : Expr} (h : AreSpelledIn P e.spellings) :
    (operand e).IsSpelledIn P := h

/-- A lone argument that is passed on is among the arguments of what it replaces. -/
theorem spellingsAll_effective_subset (args : List Arg) :
    Arg.spellingsAll (effective args) ⊆ Arg.spellingsAll args := by
  rcases effective_cases args with h | ⟨b, flat, hargs, h⟩
  · rw [h]
    exact List.Subset.refl _
  · have inner : Arg.spellingsAll args = "?" :: Arg.spellingsAll [b] := by
      rcases hargs with rfl | rfl <;>
        simp [Arg.spellingsAll, Arg.spellings, spellings]
    rw [h, inner]
    exact List.subset_cons_self _ _

theorem areSpelledIn_effective {args : List Arg} (h : AreSpelledIn P (Arg.spellingsAll args)) :
    ∀ a ∈ effective args, AreSpelledIn P a.spellings := by
  have among : AreSpelledIn P (Arg.spellingsAll (effective args)) :=
    fun s hs => h s (spellingsAll_effective_subset args hs)
  exact fun a ha => among.arg_of_mem ha

theorem isSpelledIn_templateSteps (flat opened : Bool) {cs : List Char} {args : List Arg}
    (hcs : ∀ c ∈ cs, P c) (hargs : ∀ a ∈ args, AreSpelledIn P a.spellings) :
    ∀ s ∈ templateSteps flat opened cs args, s.IsSpelledIn P := by
  fun_induction templateSteps flat opened cs args with
  | case1 opened args =>
    intro s hs
    obtain ⟨a, ha, rfl⟩ := List.mem_map.mp hs
    exact hargs a ha
  | case2 opened cs a args ih =>
    obtain ⟨ha, hargs⟩ := List.forall_mem_cons.mp hargs
    exact List.forall_mem_cons.mpr ⟨ha, ih (List.forall_mem_cons.mp hcs).2 hargs⟩
  | case3 opened c cs a args h ih =>
    obtain ⟨hc, hcs⟩ := List.forall_mem_cons.mp hcs
    exact List.forall_mem_cons.mpr ⟨List.forall_mem_singleton.mpr hc, ih hcs hargs⟩
  | case4 opened cs h => exact List.forall_mem_singleton.mpr hcs

end Plain

include significant

theorem isSpelledIn_say {s : String} (h : s.toList.all isSignificant = true) :
    (say s).IsSpelledIn P :=
  fun c hc => significant c (List.all_eq_true.mp h c hc)

theorem isSpelledIn_commaSteps {args : List Arg}
    (h : ∀ a ∈ args, AreSpelledIn P a.spellings) :
    ∀ s ∈ commaSteps args, s.IsSpelledIn P := by
  fun_induction commaSteps args with
  | case1 => exact List.forall_mem_nil _
  | case2 a => exact List.forall_mem_singleton.mpr (h a List.mem_cons_self)
  | case3 a args _ ih =>
    obtain ⟨ha, hargs⟩ := List.forall_mem_cons.mp h
    exact List.forall_mem_cons.mpr ⟨ha, List.forall_mem_cons.mpr
      ⟨isSpelledIn_say significant (by decide), ih hargs⟩⟩

theorem isSpelledIn_membershipSteps {left : Expr} {values : List Arg} (negated : Bool)
    (hleft : AreSpelledIn P left.spellings) (h : ∀ a ∈ values, AreSpelledIn P a.spellings) :
    ∀ s ∈ membershipSteps left values negated, s.IsSpelledIn P := by
  have said {s t : String} (hs : s.toList.all isSignificant = true)
      (ht : t.toList.all isSignificant = true) : (say (if negated then s else t)).IsSpelledIn P := by
    cases negated with
    | true => exact isSpelledIn_say significant hs
    | false => exact isSpelledIn_say significant ht
  refine List.forall_mem_cons.mpr ⟨isSpelledIn_operand hleft, ?_⟩
  split
  · exact List.forall_mem_singleton.mpr (said (by decide) (by decide))
  · exact List.forall_mem_singleton.mpr (said (by decide) (by decide))
  · exact List.forall_mem_cons.mpr ⟨said (by decide) (by decide), List.forall_mem_singleton.mpr .nil⟩
  · exact List.forall_mem_cons.mpr ⟨said (by decide) (by decide), List.forall_mem_singleton.mpr
      (h _ List.mem_cons_self)⟩
  · refine List.forall_mem_cons.mpr ⟨said (by decide) (by decide), List.forall_mem_append.mpr
      ⟨isSpelledIn_commaSteps significant h, List.forall_mem_singleton.mpr ?_⟩⟩
    exact isSpelledIn_say significant (by decide)

theorem isSpelledIn_comparisonSteps {left : Expr} (op : Operator) {right : Arg}
    (hleft : AreSpelledIn P left.spellings) (hright : AreSpelledIn P right.spellings) :
    ∀ s ∈ comparisonSteps left op right, s.IsSpelledIn P := by
  have among : ∀ a ∈ [right], AreSpelledIn P a.spellings := List.forall_mem_singleton.mpr hright
  have second (word : String) (hword : word.toList.all isSignificant = true) (rest : List Step)
      (hrest : ∀ s ∈ rest, s.IsSpelledIn P) :
      ∀ s ∈ operand left :: say word :: rest, s.IsSpelledIn P :=
    List.forall_mem_cons.mpr ⟨isSpelledIn_operand hleft,
      List.forall_mem_cons.mpr ⟨isSpelledIn_say significant hword, hrest⟩⟩
  unfold comparisonSteps
  split
  case h_1 => exact isSpelledIn_membershipSteps significant false hleft among
  case h_2 => exact isSpelledIn_membershipSteps significant true hleft among
  case h_9 =>
    have spelled : (" " ++ op.spelling ++ " ").toList.all isSignificant = true := by
      cases op <;> decide
    exact second _ spelled _ (List.forall_mem_singleton.mpr hright)
  case h_5 | h_6 => exact second _ (by decide) _ (List.forall_mem_singleton.mpr .nil)
  all_goals exact second _ (by decide) _ (List.forall_mem_nil _)

theorem isSpelledIn_branchSteps {branches : List (Arg × Arg)}
    (h : AreSpelledIn P (Arg.spellingsBranches branches)) :
    ∀ s ∈ branchSteps branches, s.IsSpelledIn P := by
  fun_induction branchSteps branches with
  | case1 => exact List.forall_mem_nil _
  | case2 condition result branches ih =>
    simp only [Arg.spellingsBranches, AreSpelledIn.append_iff] at h
    simp only [List.forall_mem_cons]
    exact ⟨isSpelledIn_say significant (by decide), h.1.1, isSpelledIn_say significant (by decide),
      h.1.2, ih h.2⟩

theorem isSpelledIn_optionalSteps {lead : String} (hlead : lead.toList.all isSignificant = true)
    {a : Option Arg} (h : AreSpelledIn P (Arg.spellingsOption a)) :
    ∀ s ∈ optionalSteps lead a, s.IsSpelledIn P := by
  cases a with
  | none => exact List.forall_mem_nil _
  | some a =>
    exact List.forall_mem_cons.mpr ⟨isSpelledIn_say significant hlead, List.forall_mem_singleton.mpr h⟩

/-- The steps of an expression write characters of its spellings and significant ones, and the
spellings in their arguments are among its own. -/
theorem isSpelledIn_steps {e : Expr} (h : AreSpelledIn P e.spellings) :
    ∀ s ∈ e.steps, s.IsSpelledIn P := by
  cases e with
  | empty | and es | or es | not es => exact List.forall_mem_nil _
  | column c => exact List.forall_mem_singleton.mpr h
  | template text args flat =>
    obtain ⟨htext, hargs⟩ := AreSpelledIn.cons_iff.mp h
    exact isSpelledIn_templateSteps flat false htext (areSpelledIn_effective hargs)
  | comparison op left right =>
    obtain ⟨hleft, hright⟩ := AreSpelledIn.append_iff.mp h
    exact isSpelledIn_comparisonSteps significant op hleft hright
  | membership left values negated =>
    obtain ⟨hleft, hvalues⟩ := AreSpelledIn.append_iff.mp h
    exact isSpelledIn_membershipSteps significant negated hleft fun a ha => hvalues.arg_of_mem ha
  | between left low high negated =>
    simp only [spellings, AreSpelledIn.append_iff] at h
    have word : (say (if negated then " NOT BETWEEN " else " BETWEEN ")).IsSpelledIn P :=
      isSpelledIn_say significant (by cases negated <;> decide)
    simp only [steps, List.forall_mem_cons]
    exact ⟨h.1.1, word, h.1.2, isSpelledIn_say significant (by decide), h.2, List.forall_mem_nil _⟩
  | caseWhen subject branches otherwise =>
    simp only [spellings, AreSpelledIn.append_iff] at h
    simp only [steps, List.forall_mem_cons, List.forall_mem_append]
    exact ⟨isSpelledIn_say significant (by decide),
      ⟨⟨isSpelledIn_optionalSteps significant (by decide) h.1.1,
        isSpelledIn_branchSteps significant h.1.2⟩,
        isSpelledIn_optionalSteps significant (by decide) h.2⟩,
      isSpelledIn_say significant (by decide), List.forall_mem_nil _⟩
  | aliased e name =>
    simp only [spellings, AreSpelledIn.append_iff, AreSpelledIn.cons_iff] at h
    simp only [steps, List.forall_mem_cons]
    exact ⟨h.1, isSpelledIn_say significant (by decide), h.2.1, List.forall_mem_nil _⟩

end Expr

/-! ## The spellings of steps -/

/-- The spellings in a step. -/
def Step.spellings : Step → List String
  | .text _ => []
  | .name word => [word]
  | .column c => c.spellings
  | .arg _ a => a.spellings

theorem Step.spellings_of_expr? {s : Step} {a : Arg} {c : Expr} (ha : s.arg? = some a)
    (hc : a.expr? = some c) : s.spellings = c.spellings := by
  cases s with
  | arg mode b =>
    obtain rfl : b = a := Option.some.inj ha
    cases b <;> simp_all [Arg.expr?, spellings, Arg.spellings]
  | _ => cases ha

namespace Expr

open Step (say operand)

theorem spellings_map_surplus (args : List Arg) :
    (args.map (Step.arg .surplus)).flatMap Step.spellings = Arg.spellingsAll args := by
  induction args with
  | nil => rfl
  | cons a args ih => rw [List.map_cons, List.flatMap_cons, ih]; rfl

theorem spellings_templateSteps (flat opened : Bool) (cs : List Char) (args : List Arg) :
    (templateSteps flat opened cs args).flatMap Step.spellings = Arg.spellingsAll args := by
  fun_induction templateSteps flat opened cs args with
  | case1 opened args => exact spellings_map_surplus args
  | case2 opened cs a args ih => rw [List.flatMap_cons, ih]; rfl
  | case3 opened c cs a args h ih => rw [List.flatMap_cons, ih]; rfl
  | case4 opened cs h => rfl

theorem spellings_commaSteps (args : List Arg) :
    (commaSteps args).flatMap Step.spellings = Arg.spellingsAll args := by
  fun_induction commaSteps args with
  | case1 => rfl
  | case2 a => rfl
  | case3 a args h ih => rw [List.flatMap_cons, List.flatMap_cons, ih]; rfl

theorem spellings_membershipSteps (left : Expr) (values : List Arg) (negated : Bool) :
    (membershipSteps left values negated).flatMap Step.spellings =
      left.spellings ++ Arg.spellingsAll values := by
  unfold membershipSteps
  split <;> simp [Step.spellings, operand, say, spellings_commaSteps, Arg.spellingsAll,
    Arg.spellings]

theorem spellings_comparisonSteps (left : Expr) (op : Operator) (right : Arg) :
    (comparisonSteps left op right).flatMap Step.spellings = left.spellings ++ right.spellings := by
  unfold comparisonSteps
  split
  case h_1 | h_2 => simp [spellings_membershipSteps, Arg.spellingsAll]
  all_goals simp [Step.spellings, operand, say, Arg.spellings]

theorem spellings_branchSteps (branches : List (Arg × Arg)) :
    (branchSteps branches).flatMap Step.spellings = Arg.spellingsBranches branches := by
  fun_induction branchSteps branches with
  | case1 => rfl
  | case2 condition result branches ih =>
    simp [Step.spellings, say, ih, Arg.spellingsBranches]

theorem spellings_optionalSteps (lead : String) (a : Option Arg) :
    (optionalSteps lead a).flatMap Step.spellings = Arg.spellingsOption a := by
  cases a <;> simp [optionalSteps, Step.spellings, say, Arg.spellingsOption]

/-- The spellings in the steps of an expression are among its own. -/
theorem spellings_subset_of_mem_steps {e : Expr} {s : Step} (hs : s ∈ e.steps) :
    s.spellings ⊆ e.spellings := by
  have all : e.steps.flatMap Step.spellings ⊆ e.spellings := by
    cases e with
    | empty | and es | or es | not es => exact List.nil_subset _
    | column c =>
      rw [steps, List.flatMap_singleton]
      exact List.Subset.refl _
    | template text args flat =>
      rw [steps, spellings_templateSteps]
      exact List.subset_cons_of_subset _ (spellingsAll_effective_subset args)
    | comparison op left right =>
      rw [steps, spellings_comparisonSteps, spellings]
      exact List.Subset.refl _
    | membership left values negated =>
      rw [steps, spellings_membershipSteps, spellings]
      exact List.Subset.refl _
    | caseWhen subject branches otherwise =>
      simp [steps, spellings, spellings_branchSteps, spellings_optionalSteps, Step.spellings, say]
    | _ => simp [steps, spellings, Step.spellings, operand, say, Arg.spellings]
  exact fun t ht => all (List.mem_flatMap_of_mem hs ht)

end Expr

end SqlClause
