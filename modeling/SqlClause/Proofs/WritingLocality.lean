import SqlClause.Proofs.FragmentSplicing
import SqlClause.Proofs.WritingInduction

/-! # Writing is local

An expression is written into a fragment as it is written into a blank one and appended. So what an
expression puts into a fragment is known from its own fragment, and so is whether that is void. -/

namespace SqlClause

theorem Arg.dialect_write (a : Arg) (mode : Mode)
    (inner : ∀ e, a.expr? = some e → ∀ f : Fragment, (e.write f).fragment.dialect = f.dialect)
    (f : Fragment) : (a.write mode f).dialect = f.dialect := by
  cases a with
  | value v => cases mode <;> simp [Arg.write]
  | list vs =>
    cases mode <;> cases vs <;>
      simp [Arg.write, Fragment.bindFlat, Fragment.bindBracketed, Fragment.writeString]
  | expr e =>
    have here := inner e rfl f
    cases mode with
    | operand => simp only [Arg.write]; split <;> simp [here]
    | _ => simp [Arg.write, here]
  | verbatim e => cases mode <;> simp [Arg.write, inner e rfl f]

/-- What is said of writing an expression at the end of an appended fragment. -/
def Expr.Local (e : Expr) : Prop :=
  ∀ f g : Fragment, g.dialect = f.dialect →
    e.write (f.append g) = ⟨f.append (e.write g).fragment, (e.write g).loose⟩

theorem Arg.append_write (a : Arg) (mode : Mode) (inner : ∀ e, a.expr? = some e → e.Local)
    {f g : Fragment} (h : g.dialect = f.dialect) :
    a.write mode (f.append g) = f.append (a.write mode g) := by
  cases a with
  | value v =>
    cases mode with
    | surplus => simpa [Arg.write] using Fragment.append_supply f g v
    | _ => simpa [Arg.write] using Fragment.append_bind f g v
  | list vs =>
    cases mode with
    | surplus => simpa [Arg.write] using Fragment.append_supplyAll f g vs
    | flat =>
      rw [Arg.write, Arg.write, Fragment.bindFlat, Fragment.bindFlat]
      split
      · exact Fragment.append_bind f g .null
      · exact Fragment.append_bindAll f g vs
    | _ =>
      simp only [Arg.write, Fragment.bindBracketed, Fragment.writeString]
      split
      · exact Fragment.append_write f g _
      · simp only [Fragment.append_write, Fragment.append_bindAll]
  | expr e =>
    have here := inner e rfl f g h
    cases mode with
    | surplus => simp [Arg.write, Fragment.append_supplyAll, h]
    | operand =>
      simp only [Arg.write, Fragment.dialect_append, h]
      split
      · rw [here]
      · exact Fragment.append_appendOperand f g _
    | _ => simp [Arg.write, here]
  | verbatim e =>
    have here := inner e rfl f g h
    cases mode with
    | surplus => simp [Arg.write, Fragment.append_supplyAll, h]
    | _ => simp [Arg.write, here]

theorem Step.append_write (s : Step)
    (inner : ∀ a, s.arg? = some a → ∀ e, a.expr? = some e → e.Local)
    {f g : Fragment} (h : g.dialect = f.dialect) :
    s.write (f.append g) = f.append (s.write g) := by
  cases s with
  | text cs => exact Fragment.append_write f g cs
  | name word => exact Fragment.append_writeName f g h word
  | column c => exact Fragment.append_writeColumn f g h c
  | arg mode a => exact Arg.append_write a mode (inner a rfl) h

theorem Step.dialect_write (s : Step)
    (inner : ∀ a, s.arg? = some a → ∀ e, a.expr? = some e →
      ∀ f : Fragment, (e.write f).fragment.dialect = f.dialect)
    (f : Fragment) : (s.write f).dialect = f.dialect := by
  cases s with
  | arg mode a => exact Arg.dialect_write a mode (inner a rfl) f
  | _ => simp [Step.write]

theorem Fragment.dialect_addOperand (f : Fragment) (p : Operand) :
    (f.addOperand p).dialect = f.dialect := by
  unfold addOperand
  split <;> rfl

theorem Fragment.dialect_addJoined (f : Fragment) (separator : List Char) (ps : List Operand) :
    (f.addJoined separator ps).dialect = f.dialect := by
  fun_induction addJoined f separator ps with
  | case1 f => rfl
  | case2 f p => exact dialect_addOperand f p
  | case3 f p ps h ih => rw [ih, dialect_write, dialect_addOperand]

theorem Fragment.dialect_addGroup (f : Fragment) (separator : List Char) (ps : List Operand) :
    (f.addGroup separator ps).fragment.dialect = f.dialect := by
  match h : shown ps with
  | [] => rw [addGroup_of_shown_nil h]
  | [p] => rw [addGroup_of_shown_single h, dialect_append]
  | p :: q :: qs => simp [addGroup_of_shown_many h, dialect_addJoined]

theorem Fragment.append_addGroup (f g : Fragment) (separator : List Char) (ps : List Operand) :
    (f.append g).addGroup separator ps =
      ⟨f.append (g.addGroup separator ps).fragment, (g.addGroup separator ps).loose⟩ := by
  match h : shown ps with
  | [] => rw [addGroup_of_shown_nil h, addGroup_of_shown_nil h]
  | [p] => rw [addGroup_of_shown_single h, addGroup_of_shown_single h, append_assoc]
  | p :: q :: qs =>
    rw [addGroup_of_shown_many h, addGroup_of_shown_many h, append_write, append_addJoined,
      append_write]

namespace Expr

@[simp] theorem dialect_write (e : Expr) (f : Fragment) :
    (e.write f).fragment.dialect = f.dialect := by
  induction e using writing_induction generalizing f with
  | steps e h inner =>
    have steps : ∀ (steps : List Step), (∀ s ∈ steps, s ∈ e.steps) → ∀ f : Fragment,
        (steps.foldl Step.write f).dialect = f.dialect := by
      intro steps hs
      induction steps with
      | nil => exact fun f => rfl
      | cons s steps ih =>
        intro f
        rw [List.foldl_cons, ih fun t ht => hs t (List.mem_cons_of_mem _ ht)]
        exact Step.dialect_write s (inner s (hs s List.mem_cons_self)) f
    rw [write_of_isGroup_eq_false h, steps e.steps fun s hs => hs]
  | and es ih => rw [write_and, Fragment.dialect_addGroup]
  | or es ih => rw [write_or, Fragment.dialect_addGroup]
  | not es ih ihn => rw [write_not, Fragment.dialect_addGroup]

@[simp] theorem dialect_fragment (e : Expr) (d : Dialect) : (e.fragment d).dialect = d :=
  dialect_write e (.blank d)

theorem foldl_write_append {steps : List Step}
    (inner : ∀ s ∈ steps, ∀ a, s.arg? = some a → ∀ e, a.expr? = some e → e.Local)
    {f g : Fragment} (h : g.dialect = f.dialect) :
    steps.foldl Step.write (f.append g) = f.append (steps.foldl Step.write g) := by
  induction steps generalizing g with
  | nil => rfl
  | cons s steps ih =>
    have hs : (s.write g).dialect = f.dialect := by
      rw [Step.dialect_write s (fun a _ e _ => dialect_write e), h]
    rw [List.foldl_cons, Step.append_write s (inner s List.mem_cons_self) h,
      ih (fun t ht => inner t (List.mem_cons_of_mem _ ht)) hs, List.foldl_cons]

theorem write_append (e : Expr) : e.Local := by
  induction e using writing_induction with
  | steps e h inner =>
    intro f g hg
    rw [write_of_isGroup_eq_false h, write_of_isGroup_eq_false h, foldl_write_append inner hg]
  | and es ih =>
    intro f g hg
    rw [write_and, write_and, Fragment.append_addGroup, hg, Fragment.dialect_append]
  | or es ih =>
    intro f g hg
    rw [write_or, write_or, Fragment.append_addGroup, hg, Fragment.dialect_append]
  | not es ih ihn =>
    intro f g hg
    rw [write_not, write_not, Fragment.append_addGroup, hg, Fragment.dialect_append]

/-- An expression is written as its own fragment is appended. -/
theorem write_eq_append (e : Expr) (f : Fragment) :
    e.write f = ⟨f.append (e.fragment f.dialect), (e.write (.blank f.dialect)).loose⟩ := by
  have here := e.write_append f (.blank f.dialect) rfl
  rwa [Fragment.append_blank] at here

theorem fragment_write (e : Expr) (f : Fragment) :
    (e.write f).fragment = f.append (e.fragment f.dialect) :=
  congrArg Operand.fragment (e.write_eq_append f)

end Expr

/-- The second fragment at the end, as an argument is written in this mode. It is `whole` if it never
needs brackets. -/
def Fragment.embed (f g : Fragment) (mode : Mode) (whole : Bool) : Fragment :=
  match mode with
  | .surplus => f.supplyAll g.params
  | .operand => if whole then f.append g else f.appendOperand g
  | .plain | .flat => f.append g

theorem Arg.write_expr (e : Expr) (mode : Mode) (f : Fragment) :
    (Arg.expr e).write mode f = f.embed (e.fragment f.dialect) mode e.isCase := by
  cases mode <;> simp only [Arg.write, Fragment.embed, e.fragment_write f, Expr.fragment]

theorem Arg.write_verbatim (e : Expr) (mode : Mode) (f : Fragment) :
    (Arg.verbatim e).write mode f = f.embed (e.fragment f.dialect) mode true := by
  cases mode <;> simp only [Arg.write, Fragment.embed, e.fragment_write f, Expr.fragment, if_true]

/-- An argument is written as what it is in a blank fragment is appended. -/
theorem Arg.write_eq_append (a : Arg) (mode : Mode) (f : Fragment) :
    a.write mode f = f.append (a.write mode (.blank f.dialect)) := by
  have here := Arg.append_write a mode (fun e _ => e.write_append) (Fragment.dialect_blank f.dialect)
  rwa [Fragment.append_blank] at here

/-- So are steps. -/
theorem Step.foldl_write_eq_append (steps : List Step) (f : Fragment) :
    steps.foldl Step.write f = f.append (steps.foldl Step.write (.blank f.dialect)) := by
  have here : steps.foldl Step.write (f.append (.blank f.dialect)) =
      f.append (steps.foldl Step.write (.blank f.dialect)) :=
    Expr.foldl_write_append (fun s _ a _ e _ => e.write_append) (Fragment.dialect_blank f.dialect)
  rwa [Fragment.append_blank] at here

/-- The text of steps is made of the texts of each, where all parameters look alike. -/
theorem Step.chars_foldl_write (steps : List Step) (f : Fragment) (mark : List Char) :
    (steps.foldl Step.write f).chars (fun _ => mark) =
      f.chars (fun _ => mark) ++
        steps.flatMap fun s => (s.write (.blank f.dialect)).chars fun _ => mark := by
  induction steps generalizing f with
  | nil => exact (List.append_nil _).symm
  | cons s steps ih =>
    have dialect : (s.write f).dialect = f.dialect :=
      s.dialect_write (fun a _ e _ => e.dialect_write) f
    have written : s.write f = f.append (s.write (.blank f.dialect)) :=
      Step.foldl_write_eq_append [s] f
    rw [List.foldl_cons, ih, dialect, written, Fragment.chars_append, List.flatMap_cons,
      List.append_assoc]

end SqlClause
