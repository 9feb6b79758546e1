import Mathlib
import SqlClause.Proofs.ParameterOrder
import SqlClause.Proofs.WritingLocality

/-! # Which values the placeholders stand for

An argument that a template leaves over is bound without a placeholder. A placeholder after it stands
for a later value than its own position tells, and a driver that counts question marks does not see
that. -/

namespace SqlClause

mutual

/-- For each scalar of an argument, whether the text has a placeholder for it. -/
def Arg.placed (mode : Mode) (a : Arg) : List Bool :=
  match mode, a with
  | .surplus, a => List.replicate (a.scalars false).length false
  | .flat, .list [] => [true]
  | _, .value _ => [true]
  | _, .list vs => List.replicate vs.length true
  | _, .expr e | _, .verbatim e => e.placed
termination_by (a.weight, 0)
decreasing_by all_goals simp only [Arg.weight, Prod.lex_def]; omega

def Step.placedAll (steps : List Step) : List Bool :=
  match steps with
  | [] => []
  | .arg mode a :: rest => a.placed mode ++ Step.placedAll rest
  | _ :: rest => Step.placedAll rest
termination_by (Step.weights steps, steps.length)
decreasing_by
  all_goals
    simp only [Step.weights_cons, Step.weight, List.length_cons, Prod.lex_def]
    omega

/-- For each scalar of an expression in source order, whether the text has a placeholder for it. -/
def Expr.placed (e : Expr) : List Bool :=
  match e with
  | .and children | .or children | .not children => Expr.placedAll children
  | e => Step.placedAll e.steps
termination_by (e.weight, 0)
decreasing_by
  · simp only [Expr.weight, Prod.lex_def]; omega
  · simp only [Expr.weight, Prod.lex_def]; omega
  · simp only [Expr.weight, Prod.lex_def]; omega
  · have := Expr.weights_steps_lt e
    simp only [Prod.lex_def]
    omega

def Expr.placedAll (es : List Expr) : List Bool :=
  match es with
  | [] => []
  | e :: es => e.placed ++ Expr.placedAll es
termination_by (Expr.weights es, es.length)
decreasing_by all_goals simp only [Expr.weights, List.length_cons, Prod.lex_def]; omega

end

def Step.placed : Step → List Bool
  | .arg mode a => a.placed mode
  | _ => []

namespace Expr

theorem placedAll_eq_flatMap (es : List Expr) : placedAll es = es.flatMap placed := by
  induction es with
  | nil => simp [placedAll]
  | cons e es ih => rw [placedAll, List.flatMap_cons, ih]

theorem placed_and (es : List Expr) : (Expr.and es).placed = es.flatMap placed := by
  rw [placed, placedAll_eq_flatMap]

theorem placed_or (es : List Expr) : (Expr.or es).placed = es.flatMap placed := by
  rw [placed, placedAll_eq_flatMap]

theorem placed_not (es : List Expr) : (Expr.not es).placed = es.flatMap placed := by
  rw [placed, placedAll_eq_flatMap]

end Expr

theorem Step.placedAll_eq_flatMap (steps : List Step) :
    placedAll steps = steps.flatMap Step.placed := by
  induction steps with
  | nil => simp [placedAll]
  | cons s steps ih => cases s <;> simp [placedAll, Step.placed, ih]

namespace Expr

theorem placed_of_isGroup_eq_false {e : Expr} (h : e.isGroup = false) :
    e.placed = e.steps.flatMap Step.placed := by
  rw [← Step.placedAll_eq_flatMap]
  cases e with
  | and es => cases h
  | or es => cases h
  | not es => cases h
  | _ => simp [placed]

open Step (say operand)

theorem placed_membershipSteps (left : Expr) (values : List Arg) (n n' : Bool) :
    (membershipSteps left values n).flatMap Step.placed =
      (membershipSteps left values n').flatMap Step.placed := by
  unfold membershipSteps
  split <;> simp [Step.placed, say]

theorem placed_comparisonSteps_negated (left : Expr) (op : Operator) (right : Arg) :
    (comparisonSteps left op.negated right).flatMap Step.placed =
      (comparisonSteps left op right).flatMap Step.placed := by
  cases op with
  | isIn => exact placed_membershipSteps left [right] true false
  | notIn => exact placed_membershipSteps left [right] false true
  | eq | ne =>
    cases right with
    | value v => cases v <;> simp [comparisonSteps, Operator.negated, Step.placed, say]
    | list vs => cases vs <;> simp [comparisonSteps, Operator.negated, Step.placed, say]
    | _ => simp [comparisonSteps, Operator.negated, Step.placed, say]
  | _ => simp [comparisonSteps, Operator.negated, Step.placed, say]

mutual

/-- A negation has placeholders for the same scalars as what it negates. -/
theorem placed_of_negation? : ∀ {e n : Expr}, e.negation? = some n → n.placed = e.placed
  | .and es, n, h => by
    obtain rfl := Option.some.inj h
    rw [placed_or, placed_and, placed_negations es]
  | .or es, n, h => by
    obtain rfl := Option.some.inj h
    rw [placed_and, placed_or, placed_negations es]
  | .not es, n, h => by
    obtain rfl := Option.some.inj h
    rw [placed_and, placed_not]
  | .comparison op left right, n, h => by
    obtain rfl := Option.some.inj h
    rw [placed_of_isGroup_eq_false rfl, placed_of_isGroup_eq_false rfl]
    exact placed_comparisonSteps_negated left op right
  | .membership left values negated, n, h => by
    obtain rfl := Option.some.inj h
    rw [placed_of_isGroup_eq_false rfl, placed_of_isGroup_eq_false rfl]
    exact placed_membershipSteps left values _ _
  | .between left low high negated, n, h => by
    obtain rfl := Option.some.inj h
    rw [placed_of_isGroup_eq_false rfl, placed_of_isGroup_eq_false rfl]
    simp [steps, Step.placed, say]
  | .empty, n, h | .column _, n, h | .template _ _ _, n, h | .caseWhen _ _ _, n, h
  | .aliased _ _, n, h => by
    simp [negation?] at h

theorem placed_negations : ∀ es : List Expr, (negations es).flatMap placed = es.flatMap placed
  | [] => rfl
  | e :: es => by
    rw [negations, List.flatMap_cons, List.flatMap_cons, placed_negations es]
    congr 1
    cases h : e.negation? with
    | none => simp [placed_not]
    | some n => exact placed_of_negation? h

end

end Expr

/-! ## One mark for each scalar -/

theorem Arg.length_placed (a : Arg) (mode : Mode)
    (inner : ∀ e, a.expr? = some e → e.placed.length = e.scalars.length) :
    (a.placed mode).length = (a.scalars (mode = .flat)).length := by
  cases a with
  | value v => cases mode <;> simp [Arg.placed, Arg.scalars_value]
  | list vs => cases mode <;> cases vs <;> simp [Arg.placed, Arg.scalars]
  | expr e => cases mode <;> simp [Arg.placed, Arg.scalars_expr, inner e rfl]
  | verbatim e => cases mode <;> simp [Arg.placed, Arg.scalars_verbatim, inner e rfl]

theorem Expr.length_placed (e : Expr) : e.placed.length = e.scalars.length := by
  induction e using writing_induction with
  | steps e h inner =>
    rw [placed_of_isGroup_eq_false h, ← scalars_steps h, List.length_flatMap, List.length_flatMap]
    congr 1
    refine List.map_congr_left fun s hs => ?_
    cases s with
    | arg mode a => exact Arg.length_placed a mode (inner _ hs a rfl)
    | _ => rfl
  | and es ih =>
    rw [placed_and, scalars_and, List.length_flatMap, List.length_flatMap]
    exact congrArg _ (List.map_congr_left ih)
  | or es ih =>
    rw [placed_or, scalars_or, List.length_flatMap, List.length_flatMap]
    exact congrArg _ (List.map_congr_left ih)
  | not es ih ihn =>
    rw [placed_not, scalars_not, List.length_flatMap, List.length_flatMap]
    exact congrArg _ (List.map_congr_left ih)

/-! ## The parameters in the text -/

/-- The places of the marks that hold, counted from `n`. -/
def positions (n : Nat) : List Bool → List Nat
  | [] => []
  | b :: bs => if b then n :: positions (n + 1) bs else positions (n + 1) bs

section Positions

variable {n : Nat} {bs cs : List Bool}

@[simp] theorem positions_append :
    positions n (bs ++ cs) = positions n bs ++ positions (n + bs.length) cs := by
  induction bs generalizing n with
  | nil => rfl
  | cons b bs ih =>
    have next : n + (bs.length + 1) = n + 1 + bs.length := by omega
    cases b <;> simp [positions, ih, next]

@[simp] theorem positions_replicate_false (k : Nat) : positions n (List.replicate k false) = [] := by
  induction k generalizing n with
  | zero => rfl
  | succ k ih => exact ih

@[simp] theorem positions_replicate_true (k : Nat) :
    positions n (List.replicate k true) = List.range' n k := by
  induction k generalizing n with
  | zero => rfl
  | succ k ih => rw [List.replicate_succ, positions, if_pos rfl, ih]; rfl

theorem map_add_positions (m : Nat) :
    (positions n bs).map (· + m) = positions (n + m) bs := by
  induction bs generalizing n with
  | nil => rfl
  | cons b bs ih =>
    have next : n + m + 1 = n + 1 + m := by omega
    cases b <;> simp [positions, ih, next]

theorem length_positions : (positions n bs).length = bs.count true := by
  induction bs generalizing n with
  | nil => rfl
  | cons b bs ih => cases b <;> simp [positions, ih]

theorem le_of_mem_positions {i : Nat} (h : i ∈ positions n bs) : n ≤ i := by
  induction bs generalizing n with
  | nil => cases h
  | cons b bs ih =>
    cases b with
    | true =>
      rcases List.mem_cons.mp h with rfl | h
      · exact Nat.le_refl _
      · exact Nat.le_of_succ_le (ih h)
    | false => exact Nat.le_of_succ_le (ih h)

theorem positions_eq_nil_iff : positions n bs = [] ↔ ∀ b ∈ bs, b = false := by
  induction bs generalizing n with
  | nil => simp [positions]
  | cons b bs ih => cases b <;> simp [positions, ih]

/-- The places follow each other from the first if and only if no mark that holds comes after one that
does not. -/
theorem positions_eq_range'_iff :
    positions n bs = List.range' n (positions n bs).length ↔
      bs.Pairwise fun a b => b = true → a = true := by
  induction bs generalizing n with
  | nil => simp [positions]
  | cons b bs ih =>
    cases b with
    | true => simp [positions, List.range'_succ, ih]
    | false =>
      rw [List.pairwise_cons, show positions n (false :: bs) = positions (n + 1) bs from rfl]
      constructor
      · intro h
        -- the first of the later places would be the one that was passed over
        have none : positions (n + 1) bs = [] := by
          cases hp : positions (n + 1) bs with
          | nil => rfl
          | cons i is =>
            rw [hp, List.length_cons, List.range'_succ] at h
            have first : i = n := (List.cons.inj h).1
            have later : n + 1 ≤ i := le_of_mem_positions (hp ▸ List.mem_cons_self)
            omega
        have all := positions_eq_nil_iff.mp none
        have unmarked : ∀ a, ∀ b ∈ bs, b = true → a = true := fun a b hb h => by
          rw [all b hb] at h
          cases h
        exact ⟨unmarked false, List.pairwise_of_forall_mem_list fun a _ b hb => unmarked a b hb⟩
      · rintro ⟨h, -⟩
        have none : positions (n + 1) bs = [] :=
          positions_eq_nil_iff.mpr fun b hb => Bool.eq_false_iff.mpr fun hm => by cases h b hb hm
        rw [none]
        rfl

end Positions

def Part.index? : Part → Option Nat
  | .parameter index => some index
  | .text _ => none

namespace Part

theorem filterMap_addText (cs : List Char) (ps : List Part) :
    (addText cs ps).filterMap index? = ps.filterMap index? := by
  fun_induction addText cs ps with
  | case1 => rfl
  | case2 => rfl
  | case3 => rfl
  | case4 p ps _ ih => simp [List.filterMap_cons, ih]

theorem filterMap_foldl_add (ps qs : List Part) :
    (qs.foldl add ps).filterMap index? = ps.filterMap index? ++ qs.filterMap index? := by
  induction qs generalizing ps with
  | nil => simp
  | cons q qs ih =>
    rw [List.foldl_cons, ih]
    cases q with
    | text cs => rw [add, filterMap_addText]; rfl
    | parameter index => simp [add, index?]

theorem filterMap_map_shift (n : Nat) (ps : List Part) :
    (ps.map (shift n)).filterMap index? = (ps.filterMap index?).map (· + n) := by
  rw [List.filterMap_map, List.map_filterMap]
  congr 1
  funext p
  cases p <;> rfl

end Part

namespace Fragment

/-- The parameters in the order of the text. -/
def places (f : Fragment) : List Nat := f.parts.filterMap Part.index?

@[simp] theorem places_blank (d : Dialect) : (blank d).places = [] := rfl

@[simp] theorem places_write (f : Fragment) (cs : List Char) : (f.write cs).places = f.places :=
  Part.filterMap_addText cs f.parts

@[simp] theorem places_writeName (f : Fragment) (name : String) :
    (f.writeName name).places = f.places :=
  places_write _ _

@[simp] theorem places_writeColumn (f : Fragment) (c : Column) :
    (f.writeColumn c).places = f.places := by
  unfold writeColumn
  cases c.table <;> cases c.label <;> simp only <;> split <;> simp

@[simp] theorem places_bind (f : Fragment) (v : Value) :
    (f.bind v).places = f.places ++ [f.params.length] := by
  simp [places, bind, Part.index?]

@[simp] theorem places_supply (f : Fragment) (v : Value) : (f.supply v).places = f.places := rfl

@[simp] theorem places_supplyAll (f : Fragment) (vs : List Value) :
    (f.supplyAll vs).places = f.places := by
  induction vs generalizing f with
  | nil => rfl
  | cons v vs ih => exact ih (f.supply v)

@[simp] theorem places_bindAll (f : Fragment) (vs : List Value) :
    (f.bindAll vs).places = f.places ++ List.range' f.params.length vs.length := by
  fun_induction bindAll f vs with
  | case1 f => simp
  | case2 f v => simp
  | case3 f v vs h ih => simp [ih, List.range'_succ]

@[simp] theorem places_append (f g : Fragment) :
    (f.append g).places = f.places ++ g.places.map (· + f.params.length) := by
  simp only [places, append, Part.filterMap_foldl_add, Part.filterMap_map_shift]

@[simp] theorem places_bracketed (f g : Fragment) :
    (f.bracketed g).places = f.places ++ g.places.map (· + f.params.length) := by
  simp [bracketed]

@[simp] theorem places_appendOperand (f g : Fragment) :
    (f.appendOperand g).places = f.places ++ g.places.map (· + f.params.length) := by
  unfold appendOperand
  split <;> simp

theorem places_addOperand (f : Fragment) (p : Operand) :
    (f.addOperand p).places = f.places ++ p.fragment.places.map (· + f.params.length) := by
  unfold addOperand
  split <;> simp

theorem places_of_isVoid {f : Fragment} (h : f.isVoid = true) : f.places = [] := by
  simp only [isVoid_iff, List.all_eq_true, decide_eq_true_eq] at h
  refine List.filterMap_eq_nil_iff.mpr fun p hp => ?_
  rw [h.2 p hp]
  rfl

@[simp] theorem places_bindBracketed (f : Fragment) (vs : List Value) :
    (f.bindBracketed vs).places = f.places ++ List.range' f.params.length vs.length := by
  unfold bindBracketed
  split
  · rename_i h
    rw [List.isEmpty_iff.mp h]
    simp [writeString]
  · simp

/-- The places of operands one after another, with `n` parameters before the first. -/
def placesAll (n : Nat) : List Operand → List Nat
  | [] => []
  | p :: ps => p.fragment.places.map (· + n) ++ placesAll (n + p.fragment.params.length) ps

theorem places_addJoined (f : Fragment) (separator : List Char) (ps : List Operand) :
    (f.addJoined separator ps).places = f.places ++ placesAll f.params.length ps := by
  fun_induction addJoined f separator ps with
  | case1 f => simp [placesAll]
  | case2 f p => simp [placesAll, places_addOperand]
  | case3 f p ps h ih =>
    rw [ih, places_write, params_write, places_addOperand, params_addOperand, List.length_append,
      placesAll, List.append_assoc]

/-- A void operand has no places and moves none. -/
theorem placesAll_shown (n : Nat) (ps : List Operand) : placesAll n (shown ps) = placesAll n ps := by
  induction ps generalizing n with
  | nil => rfl
  | cons p ps ih =>
    rw [shown, List.filter_cons, placesAll, ← ih]
    cases h : p.fragment.isVoid with
    | true => simp [places_of_isVoid h, (isVoid_iff.mp h).1, shown]
    | false => simp [placesAll, shown]

theorem places_addGroup (f : Fragment) (separator : List Char) (ps : List Operand) :
    (f.addGroup separator ps).fragment.places = f.places ++ placesAll f.params.length ps := by
  rw [← placesAll_shown]
  match h : shown ps with
  | [] => simp [addGroup_of_shown_nil h, placesAll]
  | [p] => simp [addGroup_of_shown_single h, placesAll]
  | p :: q :: qs => simp [addGroup_of_shown_many h, places_addJoined]

end Fragment

/-- An argument has its parameters where its marks say if the expression in it does. -/
theorem Arg.places_write (a : Arg) (mode : Mode)
    (inner : ∀ e, a.expr? = some e → ∀ f : Fragment,
      (e.write f).fragment.places = f.places ++ positions f.params.length e.placed)
    (f : Fragment) :
    (a.write mode f).places = f.places ++ positions f.params.length (a.placed mode) := by
  cases a with
  | value v => cases mode <;> simp [Arg.write, Arg.placed, Arg.scalars_value, positions]
  | list vs =>
    cases mode with
    | surplus => simp [Arg.write, Arg.placed]
    | flat =>
      cases vs with
      | nil => simp [Arg.write, Fragment.bindFlat, Arg.placed, positions]
      | cons v vs => simp [Arg.write, Fragment.bindFlat, Arg.placed]
    | _ => simp [Arg.write, Arg.placed]
  | expr e =>
    have here := inner e rfl f
    have alone := inner e rfl (.blank f.dialect)
    cases mode with
    | operand =>
      simp only [Arg.write, Arg.placed]
      split
      · exact here
      · simp [alone, map_add_positions]
    | surplus => simp [Arg.write, Arg.placed]
    | _ => simp [Arg.write, Arg.placed, here]
  | verbatim e =>
    have here := inner e rfl f
    cases mode with
    | surplus => simp [Arg.write, Arg.placed]
    | _ => simp [Arg.write, Arg.placed, here]

namespace Step

theorem places_write (s : Step)
    (inner : ∀ a, s.arg? = some a → ∀ e, a.expr? = some e → ∀ f : Fragment,
      (e.write f).fragment.places = f.places ++ positions f.params.length e.placed)
    (f : Fragment) : (s.write f).places = f.places ++ positions f.params.length s.placed := by
  cases s with
  | arg mode a => exact Arg.places_write a mode (inner a rfl) f
  | _ => simp [Step.write, Step.placed, positions]

theorem length_placed (s : Step) : s.placed.length = s.scalars.length := by
  cases s with
  | arg mode a => exact Arg.length_placed a mode fun e _ => e.length_placed
  | _ => rfl

theorem places_foldl_write (steps : List Step)
    (inner : ∀ s ∈ steps, ∀ a, s.arg? = some a → ∀ e, a.expr? = some e → ∀ f : Fragment,
      (e.write f).fragment.places = f.places ++ positions f.params.length e.placed)
    (f : Fragment) :
    (steps.foldl Step.write f).places =
      f.places ++ positions f.params.length (steps.flatMap Step.placed) := by
  induction steps generalizing f with
  | nil => simp [positions]
  | cons s steps ih =>
    have bound : (s.write f).params = f.params ++ s.scalars :=
      Step.params_write s (fun _ _ e _ => e.params_write) f
    rw [List.foldl_cons, ih (fun t ht => inner t (List.mem_cons_of_mem _ ht)),
      places_write s (inner s List.mem_cons_self), bound, List.flatMap_cons, positions_append,
      length_placed, List.length_append, List.append_assoc]

end Step

namespace Expr

theorem places_refusal {e : Expr} (d : Dialect)
    (here : (e.fragment d).places = positions 0 e.placed)
    (negated : ∀ n, e.negation? = some n → (n.fragment d).places = positions 0 n.placed) :
    (e.refusal d).fragment.places = positions 0 e.placed := by
  cases h : e.negation? with
  | some n =>
    rw [refusal_of_some h, ← placed_of_negation? h]
    exact negated n h
  | none =>
    rw [refusal_of_none h, Fragment.addRefused, ← here]
    split
    · rename_i hv
      exact (Fragment.places_of_isVoid hv).symm
    · split <;> simp [Fragment.writeString]

theorem placesAll_map {n : Nat} {es : List Expr} {write : Expr → Operand}
    (params : ∀ e ∈ es, (write e).fragment.params = e.scalars)
    (places : ∀ e ∈ es, (write e).fragment.places = positions 0 e.placed) :
    Fragment.placesAll n (es.map write) = positions n (es.flatMap placed) := by
  induction es generalizing n with
  | nil => rfl
  | cons e es ih =>
    rw [List.map_cons, Fragment.placesAll, List.flatMap_cons, positions_append,
      places e List.mem_cons_self, params e List.mem_cons_self, map_add_positions, Nat.zero_add,
      ih (fun c hc => params c (List.mem_cons_of_mem _ hc))
        (fun c hc => places c (List.mem_cons_of_mem _ hc)),
      length_placed]

theorem params_fragment (e : Expr) (d : Dialect) : (e.fragment d).params = e.scalars :=
  (e.params_write (.blank d)).trans rfl

/-- Writing an expression puts its parameters after those that are there, at the places of the
scalars that are marked. -/
theorem places_write (e : Expr) (f : Fragment) :
    (e.write f).fragment.places = f.places ++ positions f.params.length e.placed := by
  induction e using writing_induction generalizing f with
  | steps e h inner =>
    rw [write_of_isGroup_eq_false h, Step.places_foldl_write _ inner, placed_of_isGroup_eq_false h]
  | and es ih =>
    rw [write_and, Fragment.places_addGroup, placed_and,
      placesAll_map (fun c _ => c.params_fragment _) fun c hc => ih c hc (.blank f.dialect)]
  | or es ih =>
    rw [write_or, Fragment.places_addGroup, placed_or,
      placesAll_map (fun c _ => c.params_fragment _) fun c hc => ih c hc (.blank f.dialect)]
  | not es ih ihn =>
    have refused (c : Expr) : (c.refusal f.dialect).fragment.params = c.scalars :=
      params_refusal f.dialect c.params_write fun n _ => n.params_write
    rw [write_not, Fragment.places_addGroup, placed_not,
      placesAll_map (fun c _ => refused c) fun c hc =>
        places_refusal f.dialect (ih c hc (.blank f.dialect))
          fun n hn => ihn c hc n hn (.blank f.dialect)]

theorem places_fragment (e : Expr) (d : Dialect) :
    (e.fragment d).places = positions 0 e.placed :=
  (e.places_write (.blank d)).trans rfl

end Expr

/-! ## The placeholders of a statement -/

theorem Part.map_param_snd_layout (mark : Nat → List Char) (start : Nat) (ps : List Part) :
    (layout mark start ps).2.map Slot.param = ps.filterMap index? := by
  fun_induction layout mark start ps with
  | case1 => rfl
  | case2 start cs ps rest slots h ih =>
    rw [List.filterMap_cons_none rfl, ← ih, h]
  | case3 start index ps stop rest slots h ih => simpa [index?, h] using ih

/-- The slots of a finished statement are for the parameters of the fragment, in order. -/
theorem Fragment.map_param_slots_finish (f : Fragment) :
    f.finish.slots.map Slot.param = f.places :=
  Part.map_param_snd_layout _ 0 f.parts

namespace Statement

/-- The statement as a driver takes it that binds the values from left to right: the placeholders
stand for them in order. -/
def inOrder (s : Statement) : Statement :=
  { s with slots := s.slots.mapIdx fun k slot => { slot with param := k } }

theorem map_param_inOrder (s : Statement) :
    s.inOrder.slots.map Slot.param = List.range' 0 s.slots.length :=
  List.ext_getElem (by simp [inOrder]) (by simp [inOrder])

theorem inOrder_eq_self_iff (s : Statement) :
    s.inOrder = s ↔ s.slots.map Slot.param = List.range' 0 s.slots.length := by
  refine ⟨fun h => by rw [← map_param_inOrder, h], fun h => ?_⟩
  have slots : s.inOrder.slots = s.slots := by
    refine List.ext_getElem (by simp [inOrder]) fun k hk hs => ?_
    have here := List.getElem_of_eq h (by simpa using hs)
    simp only [List.getElem_map, List.getElem_range', Nat.zero_add, Nat.one_mul] at here
    simp only [inOrder, List.getElem_mapIdx]
    generalize s.slots[k] = slot at here ⊢
    rw [← here]
  exact congrArg (fun slots => { s with slots := slots }) slots

end Statement

namespace Expr

theorem map_param_slots (e : Expr) (d : Dialect) :
    (e.statement d).slots.map Slot.param = positions 0 e.placed :=
  (Fragment.map_param_slots_finish _).trans (e.places_fragment d)

theorem length_slots (e : Expr) (d : Dialect) :
    (e.statement d).slots.length = e.placed.count true := by
  rw [← List.length_map, map_param_slots, length_positions]

theorem length_params (e : Expr) (d : Dialect) :
    (e.statement d).params.length = e.placed.length := by
  rw [length_placed, ← e.params_fragment d]
  rfl

theorem inOrder_statement_eq_self_iff (e : Expr) (d : Dialect) :
    (e.statement d).inOrder = e.statement d ↔
      e.placed.Pairwise fun a b => b = true → a = true := by
  rw [Statement.inOrder_eq_self_iff, ← List.length_map, map_param_slots, positions_eq_range'_iff]

/-- With as many placeholders as values no value is passed over. -/
theorem inOrder_statement_of_placeholderCount_eq {e : Expr} {d : Dialect}
    (h : (e.statement d).placeholderCount = (e.statement d).params.length) :
    (e.statement d).inOrder = e.statement d := by
  rw [Statement.placeholderCount, length_slots, length_params] at h
  have all : ∀ b ∈ e.placed, true = b := List.count_eq_length.mp h
  exact (inOrder_statement_eq_self_iff e d).mpr
    (List.pairwise_of_forall_mem_list fun a ha _ _ _ => (all a ha).symm)

end Expr

/-- The placeholders stand for the scalars that have one, in their order, so values left over are
passed over. A driver that binds the values of a statement from left to right gives each placeholder
its own if and only if no scalar that is left over comes before one that has a placeholder. -/
theorem placeholders_in_order_iff (e : Expr) (d : Dialect) :
    (e.statement d).slots.map Slot.param = positions 0 e.placed ∧
      e.placed.length = (e.statement d).params.length ∧
      ((e.statement d).inOrder = e.statement d ↔
        e.placed.Pairwise fun a b => b = true → a = true) :=
  ⟨e.map_param_slots d, (e.length_params d).symm, e.inOrder_statement_eq_self_iff d⟩

/-- The value of a named variable is bound before that of a condition. The only placeholder stands for
the second value, and a driver that binds from left to right gives it the first. -/
theorem placeholder_after_named_value :
    let e : Expr := .and [.template "a = @x" [.value (.int 1)] false,
      .comparison .eq (.column (.named "b")) (.value (.int 2))]
    let s := e.statement .mysql
    s.sql = "(a = @x AND \x60b\x60 = ?)".toList ∧ s.params = [.int 1, .int 2] ∧
      s.slots.map Slot.param = [1] ∧ s.inOrder ≠ s ∧
      s.explain = "(a = @x AND \x60b\x60 = 2)".toList ∧
      s.inOrder.explain = "(a = @x AND \x60b\x60 = 1)".toList := by
  have written : (Expr.and [.template "a = @x" [.value (.int 1)] false,
      .comparison .eq (.column (.named "b")) (.value (.int 2))]).statement .mysql =
        ⟨"(a = @x AND \x60b\x60 = ?)".toList, [.int 1, .int 2], [⟨18, 19, 1⟩]⟩ := by cbv
  intro e s
  rw [show s = _ from written]
  refine ⟨rfl, rfl, rfl, ?_, by cbv, by cbv⟩
  intro h
  cases congrArg Statement.slots h

end SqlClause
