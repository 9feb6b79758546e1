import Mathlib
import SqlClause.Proofs.WritingLocality

/-! # The walk over a template

A template is cut at its question marks, and its pieces are written with an argument after each of
them while there are arguments. A cursor that counts bytes, arguments and what it has copied comes to
the same: it never stands within a character, and it copies every piece once. -/

namespace SqlClause

namespace Text

/-- The text before and after as many bytes, if they end with a character. -/
def splitAt? : Nat → List Char → Option (List Char × List Char)
  | 0, cs => some ([], cs)
  | _ + 1, [] => none
  | n + 1, c :: cs =>
    if c.utf8Size ≤ n + 1 then
      (splitAt? (n + 1 - c.utf8Size) cs).map fun p => (c :: p.1, p.2)
    else none

/-- The text between two places in bytes, if they are places between characters. -/
def slice? (start stop : Nat) (cs : List Char) : Option (List Char) :=
  (splitAt? stop cs).bind fun p => (splitAt? start p.1).map Prod.snd

/-- The characters and the places in bytes where they start. -/
def placed (start : Nat) : List Char → List (Nat × Char)
  | [] => []
  | c :: cs => (start, c) :: placed (start + c.utf8Size) cs

theorem splitAt?_size (xs ys : List Char) : splitAt? (size xs) (xs ++ ys) = some (xs, ys) := by
  induction xs with
  | nil => rw [size, List.nil_append, splitAt?]
  | cons c xs ih =>
    have positive : 0 < c.utf8Size := c.utf8Size_pos
    obtain ⟨n, hn⟩ : ∃ n, size (c :: xs) = n + 1 :=
      Nat.exists_eq_succ_of_ne_zero (by rw [size]; omega)
    have fits : c.utf8Size ≤ n + 1 := by
      rw [← hn, size]
      omega
    have rest : n + 1 - c.utf8Size = size xs := by
      rw [← hn, size]
      omega
    rw [hn, List.cons_append, splitAt?, if_pos fits, rest, ih]
    rfl

/-- What stands after one text and before another is what lies between their places. -/
theorem slice?_size (xs ys zs : List Char) :
    slice? (size xs) (size (xs ++ ys)) (xs ++ ys ++ zs) = some ys := by
  rw [slice?, splitAt?_size, Option.bind_some, splitAt?_size]
  rfl

end Text

/-! ## Pieces and arguments in turn -/

/-- How the argument after some text is written: flat if all are, or if the text ends with an opening
bracket. -/
def Mode.after (flat : Bool) (before : List Char) : Mode :=
  if flat || before.getLast? = some '(' then .flat else .operand

/-- The scalars of an argument without a place in the text. -/
def Arg.leftOver (d : Dialect) : Arg → List Value
  | .value v => [v]
  | .list vs => vs
  | .expr e | .verbatim e => (e.fragment d).params

namespace Fragment

/-- Pieces, each with the argument after it, where the pieces before them make the text `before`. -/
def spliceFrom (flat : Bool) (before : List Char) (f : Fragment) : List (List Char × Arg) → Fragment
  | [] => f
  | (p, a) :: taken =>
    (a.write (.after flat (before ++ p)) (f.write p)).spliceFrom flat (before ++ p) taken

/-- The pieces with an argument after each but the last, while there are arguments. The other pieces
are written with their marks, and the scalars of the other arguments are bound. -/
def splice (flat : Bool) (before : List Char) (f : Fragment) (ps : List (List Char))
    (args : List Arg) : Fragment :=
  let taken := min (ps.length - 1) args.length
  ((f.spliceFrom flat before (ps.dropLast.zip args)).write
      (['?'].intercalate (ps.drop taken))).supplyAll
    ((args.drop taken).flatMap (Arg.leftOver f.dialect))

@[simp] theorem write_nil (f : Fragment) : f.write [] = f := by
  simp [write]

theorem supplyAll_append (f : Fragment) (us vs : List Value) :
    f.supplyAll (us ++ vs) = (f.supplyAll us).supplyAll vs :=
  List.foldl_append

end Fragment

/-! ## The pieces one by one -/

section Splice

variable {flat : Bool} {before : List Char} {f : Fragment} {p q : List Char}
  {ps : List (List Char)} {a : Arg} {args : List Arg}

theorem Fragment.splice_cons_cons :
    f.splice flat before (p :: q :: ps) (a :: args) =
      (a.write (.after flat (before ++ p)) (f.write p)).splice flat (before ++ p) (q :: ps) args := by
  have dialect : (a.write (.after flat (before ++ p)) (f.write p)).dialect = f.dialect :=
    a.dialect_write _ (fun e _ => e.dialect_write) _
  have taken : min ((p :: q :: ps).length - 1) (a :: args).length =
      min ((q :: ps).length - 1) args.length + 1 := by
    simp only [List.length_cons]
    omega
  rw [splice, splice, taken, dialect]
  rfl

theorem Fragment.splice_single :
    f.splice flat before [p] args =
      (f.write p).supplyAll (args.flatMap (Arg.leftOver f.dialect)) := by
  simp [splice, spliceFrom]

theorem Fragment.splice_nil :
    f.splice flat before ps [] = f.write (['?'].intercalate ps) := by
  simp [splice, spliceFrom, supplyAll]

end Splice

theorem Arg.write_surplus (a : Arg) (f : Fragment) :
    a.write .surplus f = f.supplyAll (a.leftOver f.dialect) := by
  cases a <;> simp only [Arg.write] <;> rfl

theorem Arg.foldl_write_surplus (args : List Arg) (f : Fragment) :
    args.foldl (fun g a => a.write .surplus g) f =
      f.supplyAll (args.flatMap (Arg.leftOver f.dialect)) := by
  induction args generalizing f with
  | nil => rfl
  | cons a args ih =>
    rw [List.foldl_cons, ih, a.write_surplus, List.flatMap_cons, Fragment.supplyAll_append,
      Fragment.dialect_supplyAll]

namespace Expr

/-! ## The walk by characters -/

/-- Without arguments the rest of a text is written as it is. -/
theorem foldl_write_templateSteps_nil (flat opened : Bool) (cs : List Char) (f : Fragment) :
    (templateSteps flat opened cs []).foldl Step.write f = f.write cs := by
  cases cs with
  | nil => simp [templateSteps]
  | cons c cs => rfl

theorem foldl_write_map_surplus (args : List Arg) (f : Fragment) :
    (args.map (Step.arg .surplus)).foldl Step.write f =
      f.supplyAll (args.flatMap (Arg.leftOver f.dialect)) := by
  rw [List.foldl_map, ← Arg.foldl_write_surplus]
  rfl

/-- A character that no argument takes the place of is written after what is written before it. -/
theorem foldl_write_templateSteps_cons {flat opened : Bool} {c : Char} {cs : List Char}
    {args : List Arg} (h : c ≠ '?' ∨ args = []) (pending : List Char) (f : Fragment) :
    (templateSteps flat opened (c :: cs) args).foldl Step.write (f.write pending) =
      (templateSteps flat (c = '(') cs args).foldl Step.write (f.write (pending ++ [c])) := by
  cases args with
  | nil =>
    rw [foldl_write_templateSteps_nil, foldl_write_templateSteps_nil, Fragment.write_write,
      Fragment.write_write, List.append_assoc]
    rfl
  | cons a args =>
    have hc : c ≠ '?' := h.resolve_right (List.cons_ne_nil a args)
    rw [templateSteps, if_neg hc, List.foldl_cons, Step.write, Fragment.write_write]

theorem intercalate_modifyHead_append (sep pending : List Char) {ps : List (List Char)}
    (h : ps ≠ []) :
    sep.intercalate (ps.modifyHead (pending ++ ·)) = pending ++ sep.intercalate ps := by
  cases ps with
  | nil => exact absurd rfl h
  | cons p ps => cases ps <;> simp

/-- A mark is replaced by the next argument. -/
theorem foldl_write_templateSteps_mark (flat opened : Bool) (cs : List Char) (a : Arg)
    (args : List Arg) (f : Fragment) :
    (templateSteps flat opened ('?' :: cs) (a :: args)).foldl Step.write f =
      (templateSteps flat opened cs args).foldl Step.write
        (a.write (if flat || opened then .flat else .operand) f) := by
  rw [templateSteps, if_pos rfl]
  rfl

/-- The walk writes the pieces of the text and the arguments in turn. What is written before an
argument opens a bracket if the pieces so far, less their marks, end with one. -/
theorem foldl_write_templateSteps_eq_splice (flat : Bool) (cs pending before : List Char)
    (args : List Arg) (f : Fragment) :
    (templateSteps flat ((before ++ pending).getLast? = some '(') cs args).foldl Step.write
        (f.write pending) =
      f.splice flat before ((cs.splitOn '?').modifyHead (pending ++ ·)) args := by
  -- `pending` is the part of a piece that the walk has written by characters
  induction cs generalizing pending before args f with
  | nil =>
    rw [templateSteps, foldl_write_map_surplus, List.splitOn_nil, List.modifyHead_cons,
      List.append_nil, Fragment.splice_single, Fragment.dialect_write]
  | cons c cs ih =>
    cases args with
    | nil =>
      rw [foldl_write_templateSteps_nil, Fragment.write_write, Fragment.splice_nil,
        intercalate_modifyHead_append _ _ (List.splitOn_ne_nil _ _), List.intercalate_splitOn]
    | cons a args =>
      rw [List.splitOn_cons_eq_if_modifyHead]
      by_cases hc : c = '?'
      · subst hc
        obtain ⟨q, ps, hps⟩ := List.exists_cons_of_ne_nil (List.splitOn_ne_nil '?' cs)
        have rest := ih [] (before ++ pending) args
          (a.write (.after flat (before ++ pending)) (f.write pending))
        rw [List.append_nil, Fragment.write_nil, hps, List.modifyHead_cons, List.nil_append] at rest
        rw [foldl_write_templateSteps_mark, if_pos (beq_self_eq_true '?'), List.modifyHead_cons,
          List.append_nil, hps, Fragment.splice_cons_cons, ← rest]
        rfl
      · have kept : (List.modifyHead (c :: ·) (cs.splitOn '?')).modifyHead (pending ++ ·) =
            (cs.splitOn '?').modifyHead (pending ++ [c] ++ ·) := by
          rw [List.modifyHead_modifyHead]
          congr 1
          funext p
          simp
        have last : (before ++ (pending ++ [c])).getLast? = some c := by simp
        have rest := ih (pending ++ [c]) before (a :: args) f
        rw [last] at rest
        rw [foldl_write_templateSteps_cons (.inl hc), if_neg (by simpa using hc), kept, ← rest]
        simp

theorem write_template (text : String) (args : List Arg) (flat : Bool) (f : Fragment) :
    ((template text args flat).write f).fragment =
      f.splice flat [] (text.toList.splitOn '?') (effective args) := by
  have walked := foldl_write_templateSteps_eq_splice flat text.toList [] [] (effective args) f
  have whole : (text.toList.splitOn '?').modifyHead ([] ++ ·) = text.toList.splitOn '?' := by
    cases h : text.toList.splitOn '?' <;> simp
  rw [Fragment.write_nil, whole] at walked
  rw [write_of_isGroup_eq_false rfl, steps]
  exact walked

end Expr

/-! ## The walk by a cursor -/

/-- What has been written, how many arguments have been used, whether the last character that was
passed is an opening bracket, and up to which byte the text has been copied. -/
structure Cursor where
  fragment : Fragment
  used : Nat := 0
  opened : Bool := false
  copied : Nat := 0

namespace Cursor

variable (text : List Char) (flat : Bool) (args : List Arg)

/-- A mark for which there is an argument copies the text before it and uses the argument. Any other
character is passed. -/
def advance (k : Cursor) (place : Nat × Char) : Option Cursor :=
  if h : place.2 = '?' ∧ k.used < args.length then
    (Text.slice? k.copied place.1 text).map fun piece =>
      { k with
        fragment := args[k.used].write (if flat || k.opened then .flat else .operand)
          (k.fragment.write piece)
        used := k.used + 1
        copied := place.1 + 1 }
  else some { k with opened := place.2 = '(' }

/-- Copies the rest of the text and binds the scalars of the arguments that are left over. -/
def finish (k : Cursor) : Option Fragment :=
  (Text.slice? k.copied (Text.size text) text).map fun rest =>
    (args.drop k.used).foldl (fun f a => a.write .surplus f) (k.fragment.write rest)

/-- The fragment after a template, unless a slice of its text would split a character. -/
def run (f : Fragment) : Option Fragment :=
  ((Text.placed 0 text).foldlM (advance text flat args) { fragment := f }).bind (finish text args)

variable {text flat args}

theorem advance_mark {k : Cursor} {a : Arg} {rest : List Arg} {before pending after : List Char}
    (htext : text = before ++ pending ++ after) (hcopied : k.copied = Text.size before)
    (hargs : args.drop k.used = a :: rest) :
    k.advance text flat args (Text.size (before ++ pending), '?') =
      some
        { k with
          fragment := a.write (if flat || k.opened then .flat else .operand)
            (k.fragment.write pending)
          used := k.used + 1
          copied := Text.size (before ++ pending ++ ['?']) } := by
  have used : k.used < args.length := by
    by_contra h
    rw [List.drop_of_length_le (Nat.le_of_not_lt h)] at hargs
    cases hargs
  have taken : args[k.used] = a := by
    rw [List.drop_eq_getElem_cons used] at hargs
    exact (List.cons.inj hargs).1
  have size : Text.size (before ++ pending ++ ['?']) = Text.size (before ++ pending) + 1 :=
    Text.size_append _ _
  rw [advance, dif_pos ⟨rfl, used⟩, taken, htext, hcopied, Text.slice?_size, size]
  rfl

theorem advance_passed {k : Cursor} {c : Char} (h : c ≠ '?' ∨ args.drop k.used = []) (place : Nat) :
    k.advance text flat args (place, c) = some { k with opened := c = '(' } := by
  refine dif_neg ?_
  rintro ⟨hc, hused⟩
  rcases h with h | h
  · exact h hc
  · rw [List.drop_eq_nil_iff] at h
    omega

theorem finish_eq {k : Cursor} {before pending : List Char} (htext : text = before ++ pending)
    (hcopied : k.copied = Text.size before) :
    k.finish text args =
      some ((k.fragment.write pending).supplyAll
        ((args.drop k.used).flatMap (Arg.leftOver k.fragment.dialect))) := by
  have slice := Text.slice?_size before pending []
  rw [List.append_nil, ← htext] at slice
  rw [finish, hcopied, slice, Option.map_some, Arg.foldl_write_surplus, Fragment.dialect_write]

/-- A cursor that has copied what is before the pending text comes to what the walk by characters
writes from there. -/
theorem run_from {after pending before : List Char} {k : Cursor}
    (htext : text = before ++ pending ++ after) (hcopied : k.copied = Text.size before) :
    ((Text.placed (Text.size (before ++ pending)) after).foldlM (advance text flat args) k).bind
        (finish text args) =
      some ((Expr.templateSteps flat k.opened after (args.drop k.used)).foldl Step.write
        (k.fragment.write pending)) := by
  -- `before` is what the cursor has copied, and `pending` what it has passed since
  induction after generalizing pending before k with
  | nil =>
    rw [List.append_nil] at htext
    rw [Text.placed, List.foldlM_nil, Expr.templateSteps, Expr.foldl_write_map_surplus,
      Fragment.dialect_write]
    exact finish_eq htext hcopied
  | cons c after ih =>
    have next : Text.size (before ++ pending) + c.utf8Size = Text.size (before ++ pending ++ [c]) := by
      rw [Text.size_append _ [c]]
      rfl
    rw [Text.placed, List.foldlM_cons, next]
    by_cases h : c ≠ '?' ∨ args.drop k.used = []
    · have passed : text = before ++ (pending ++ [c]) ++ after := by simp [htext]
      rw [advance_passed h, Expr.foldl_write_templateSteps_cons h, List.append_assoc]
      exact ih passed hcopied
    · obtain ⟨hc, hargs⟩ := not_or.mp h
      obtain rfl : c = '?' := not_not.mp hc
      obtain ⟨a, rest, hrest⟩ := List.exists_cons_of_ne_nil hargs
      have copied : text = before ++ pending ++ ['?'] ++ [] ++ after := by simp [htext]
      have used : args.drop (k.used + 1) = rest := by
        rw [← List.drop_drop, hrest]
        rfl
      have here := ih (k := { k with
          fragment := a.write (if flat || k.opened then .flat else .operand) (k.fragment.write pending)
          used := k.used + 1
          copied := Text.size (before ++ pending ++ ['?']) }) copied rfl
      rw [advance_mark htext hcopied hrest, hrest, Expr.foldl_write_templateSteps_mark]
      rw [used, List.append_nil, Fragment.write_nil] at here
      exact here

/-- The cursor never splits a character, and writes what the walk by characters does. -/
theorem run_eq (f : Fragment) :
    run text flat args f =
      some ((Expr.templateSteps flat false text args).foldl Step.write f) := by
  have here := @run_from text flat args text [] [] { fragment := f } rfl rfl
  rwa [Fragment.write_nil] at here

end Cursor

theorem not_mem_of_mem_splitOn {c : Char} {cs p : List Char} (h : p ∈ cs.splitOn c) : c ∉ p := by
  induction cs generalizing p with
  | nil =>
    rw [List.splitOn_nil, List.mem_singleton] at h
    rw [h]
    exact List.not_mem_nil
  | cons d cs ih =>
    rw [List.splitOn_cons_eq_if_modifyHead] at h
    obtain ⟨q, ps, hps⟩ := List.exists_cons_of_ne_nil (List.splitOn_ne_nil c cs)
    rw [hps] at h ih
    split at h
    · rcases List.mem_cons.mp h with rfl | h
      · exact List.not_mem_nil
      · exact ih h
    · rename_i hd
      rcases List.mem_cons.mp h with rfl | h
      · have : d ≠ c := by simpa using hd
        simp [this.symm, ih List.mem_cons_self]
      · exact ih (List.mem_cons_of_mem _ h)

/-- What is before the pieces that are joined and what joins them are the text. -/
theorem flatMap_take_append_intercalate_drop (sep : List Char) {ps : List (List Char)} {k : Nat}
    (h : k < ps.length) :
    (ps.take k).flatMap (· ++ sep) ++ sep.intercalate (ps.drop k) = sep.intercalate ps := by
  induction k generalizing ps with
  | zero => rfl
  | succ k ih =>
    obtain ⟨p, q, ps, rfl⟩ : ∃ p q qs, ps = p :: q :: qs := by
      match ps, h with
      | p :: q :: qs, _ => exact ⟨p, q, qs, rfl⟩
    have rest := @ih (q :: ps) (by simpa using h)
    rw [List.take_succ_cons, List.drop_succ_cons, List.flatMap_cons, List.append_assoc, rest,
      List.intercalate_cons_cons, List.append_assoc]

/-- A template is written as its text is cut at the question marks: a piece and an argument in turn
while there are both, flat after an opening bracket, then the other pieces with their marks, and of
the other arguments the scalars only. A cursor that counts bytes writes the same and never splits a
character. The pieces and marks that are passed, with the rest of the text, are the text. -/
theorem template_is_spliced (text : String) (args : List Arg) (flat : Bool) (f : Fragment) :
    let pieces := text.toList.splitOn '?'
    let taken := min (pieces.length - 1) (Expr.effective args).length
    ((Expr.template text args flat).write f).fragment =
        f.splice flat [] pieces (Expr.effective args) ∧
      Cursor.run text.toList flat (Expr.effective args) f =
        some (f.splice flat [] pieces (Expr.effective args)) ∧
      (∀ p ∈ pieces, '?' ∉ p) ∧
      (pieces.take taken).flatMap (· ++ ['?']) ++ ['?'].intercalate (pieces.drop taken) =
        text.toList := by
  intro pieces taken
  have written := Expr.write_template text args flat f
  have full : taken < pieces.length := by
    have : 0 < pieces.length := List.length_pos_iff.mpr (List.splitOn_ne_nil _ _)
    omega
  refine ⟨written, ?_, fun p hp => not_mem_of_mem_splitOn hp, ?_⟩
  · rw [Expr.write_of_isGroup_eq_false rfl, Expr.steps] at written
    rw [Cursor.run_eq]
    exact congrArg some written
  · rw [flatMap_take_append_intercalate_drop _ full]
    exact List.intercalate_splitOn '?'

end SqlClause
