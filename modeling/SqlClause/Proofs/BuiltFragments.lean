import Mathlib
import SqlClause.Proofs.PlaceholderAlignment

/-! # Fragments that operations build

Every operation on a fragment splices what it does to a blank one. Splicing joins texts that meet and
moves the parameters of what it adds behind those that are there, so however a fragment was put
together, its texts are separated by its parameters, these are in order, and each has its place in the
finished text. -/

namespace SqlClause

/-- What can be done to a fragment. A fragment that is appended has been built in the same way, in a
dialect of its own. -/
inductive Operation where
  /-- To write a text, a name, a column, or an argument in one of its modes. -/
  | step (s : Step)
  | bind (v : Value)
  | supply (v : Value)
  | expr (e : Expr)
  | append (d : Dialect) (inner : List Operation)
  | appendOperand (d : Dialect) (inner : List Operation)

namespace Operation

mutual

def perform (f : Fragment) : Operation → Fragment
  | .step s => s.write f
  | .bind v => f.bind v
  | .supply v => f.supply v
  | .expr e => (e.write f).fragment
  | .append d inner => f.append (performAll (.blank d) inner)
  | .appendOperand d inner => f.appendOperand (performAll (.blank d) inner)

def performAll (f : Fragment) : List Operation → Fragment
  | [] => f
  | o :: os => performAll (o.perform f) os

end

mutual

/-- For each value that an operation binds, whether it writes a parameter for it. -/
def placed : Operation → List Bool
  | .step s => s.placed
  | .bind _ => [true]
  | .supply _ => [false]
  | .expr e => e.placed
  | .append _ inner | .appendOperand _ inner => placedAll inner

def placedAll : List Operation → List Bool
  | [] => []
  | o :: os => o.placed ++ placedAll os

end

end Operation

/-- The fragment that operations build from a blank one. -/
def Fragment.built (d : Dialect) (os : List Operation) : Fragment :=
  Operation.performAll (.blank d) os

/-! ## Operations splice -/

namespace Operation

theorem append_perform (o : Operation) {f g : Fragment} (h : g.dialect = f.dialect) :
    o.perform (f.append g) = f.append (o.perform g) := by
  cases o with
  | step s => exact Step.append_write s (fun _ _ e _ => e.write_append) h
  | bind v => exact Fragment.append_bind f g v
  | supply v => exact Fragment.append_supply f g v
  | expr e => exact congrArg Operand.fragment (e.write_append f g h)
  | append d inner => exact Fragment.append_assoc f g _
  | appendOperand d inner => exact Fragment.append_appendOperand f g _

/-- An operation on a fragment appends what it makes of a blank one. -/
theorem perform_eq_append (o : Operation) (f : Fragment) :
    o.perform f = f.append (o.perform (.blank f.dialect)) := by
  have here := o.append_perform (Fragment.dialect_blank f.dialect)
  rwa [Fragment.append_blank] at here

@[simp] theorem dialect_perform (o : Operation) (f : Fragment) :
    (o.perform f).dialect = f.dialect := by
  rw [perform_eq_append, Fragment.dialect_append]

@[simp] theorem dialect_performAll (os : List Operation) (f : Fragment) :
    (performAll f os).dialect = f.dialect := by
  induction os generalizing f with
  | nil => rfl
  | cons o os ih => rw [performAll, ih, dialect_perform]

end Operation

@[simp] theorem Fragment.dialect_built (d : Dialect) (os : List Operation) :
    (built d os).dialect = d :=
  Operation.dialect_performAll os (.blank d)

/-! ## The parts of a fragment -/

namespace Part

/-- No text is empty, and no two texts meet. -/
structure Tidy (ps : List Part) : Prop where
  full : .text [] ∉ ps
  apart : ps.IsChain fun p q => p.isParameter = true ∨ q.isParameter = true

/-- A text is added to one at the end, or as a part of its own behind a parameter. -/
theorem addText_eq (cs : List Char) (ps : List Part) :
    (∃ qs ds, ps = qs ++ [.text ds] ∧ addText cs ps = qs ++ [.text (ds ++ cs)]) ∨
      (∀ p ∈ ps.getLast?, p.isParameter = true) ∧
        addText cs ps = if cs = [] then ps else ps ++ [.text cs] := by
  fun_induction addText cs ps with
  | case1 h => exact .inr ⟨by simp, by simp [h]⟩
  | case2 h => exact .inr ⟨by simp, by simp [h]⟩
  | case3 ds => exact .inl ⟨[], ds, rfl, rfl⟩
  | case4 p ps single ih =>
    rcases ih with ⟨qs, ds, rfl, h⟩ | ⟨last, h⟩
    · exact .inl ⟨p :: qs, ds, rfl, by rw [h, List.cons_append]⟩
    · refine .inr ⟨?_, ?_⟩
      · cases ps with
        | nil =>
          cases p with
          | text ds => exact absurd rfl (single ds rfl)
          | parameter index => simp [isParameter]
        | cons q ps => simpa using last
      · rw [h]
        split <;> rfl

theorem tidy_nil : Tidy [] := ⟨List.not_mem_nil, .nil⟩

theorem Tidy.addText {ps : List Part} (h : Tidy ps) (cs : List Char) : Tidy (addText cs ps) := by
  rcases addText_eq cs ps with ⟨qs, ds, rfl, hadd⟩ | ⟨last, hadd⟩
  · have hds : ds ≠ [] := fun hd => h.full (by simp [hd])
    have chain := List.isChain_append.mp h.apart
    rw [hadd]
    refine ⟨?_, List.isChain_append.mpr ⟨chain.1, .singleton _, ?_⟩⟩
    · have := h.full
      simp_all
    · simpa [isParameter] using chain.2.2
  · rw [hadd]
    split
    · exact h
    · rename_i hcs
      refine ⟨by simpa [hcs] using h.full, List.isChain_append.mpr ⟨h.apart, .singleton _, ?_⟩⟩
      exact fun p hp q _ => .inl (last p hp)

theorem Tidy.add {ps : List Part} (h : Tidy ps) (p : Part) : Tidy (add ps p) := by
  cases p with
  | text cs => exact h.addText cs
  | parameter index =>
    refine ⟨by simpa [Part.add] using h.full,
      List.isChain_append.mpr ⟨h.apart, .singleton _, ?_⟩⟩
    simp [isParameter]

theorem Tidy.foldl_add {ps : List Part} (h : Tidy ps) (qs : List Part) :
    Tidy (qs.foldl Part.add ps) := by
  induction qs generalizing ps with
  | nil => exact h
  | cons q qs ih => exact ih (h.add q)

end Part

theorem Operation.tidy_performAll (os : List Operation) {f : Fragment} (h : Part.Tidy f.parts) :
    Part.Tidy (performAll f os).parts := by
  induction os generalizing f with
  | nil => exact h
  | cons o os ih =>
    rw [performAll]
    refine ih ?_
    rw [perform_eq_append]
    exact h.foldl_add _

theorem Fragment.tidy_built (d : Dialect) (os : List Operation) : Part.Tidy (built d os).parts :=
  Operation.tidy_performAll os Part.tidy_nil

/-! ## The parameters of a fragment -/

section Positions

variable {n : Nat} {bs : List Bool}

theorem lt_of_mem_positions {i : Nat} (h : i ∈ positions n bs) : i < n + bs.length := by
  induction bs generalizing n with
  | nil => cases h
  | cons b bs ih =>
    have later (hi : i ∈ positions (n + 1) bs) : i < n + (bs.length + 1) := by
      have := ih hi
      omega
    cases b with
    | true =>
      rcases List.mem_cons.mp h with rfl | h
      · rw [List.length_cons]
        omega
      · exact later h
    | false => exact later h

theorem pairwise_positions : (positions n bs).Pairwise (· < ·) := by
  induction bs generalizing n with
  | nil => exact .nil
  | cons b bs ih =>
    cases b with
    | true => exact .cons (fun i hi => le_of_mem_positions hi) ih
    | false => exact ih

end Positions

namespace Operation

mutual

/-- An operation writes its parameters after those that are there, at the places of the values that
are marked. -/
theorem places_perform : ∀ (o : Operation) (f : Fragment),
    (o.perform f).places = f.places ++ positions f.params.length o.placed ∧
      (o.perform f).params.length = f.params.length + o.placed.length
  | .step s, f => by
    have bound : (s.write f).params = f.params ++ s.scalars :=
      Step.params_write s (fun _ _ e _ => e.params_write) f
    refine ⟨Step.places_write s (fun _ _ e _ => e.places_write) f, ?_⟩
    rw [perform, bound, List.length_append, placed, Step.length_placed]
  | .bind v, f => by simp [perform, placed, positions]
  | .supply v, f => by simp [perform, placed, positions]
  | .expr e, f => by
    refine ⟨e.places_write f, ?_⟩
    rw [perform, e.params_write, List.length_append, placed, Expr.length_placed]
  | .append d inner, f => by
    obtain ⟨places, length⟩ := places_performAll inner (.blank d)
    simp [perform, placed, places, length, map_add_positions]
  | .appendOperand d inner, f => by
    obtain ⟨places, length⟩ := places_performAll inner (.blank d)
    simp [perform, placed, places, length, map_add_positions]

theorem places_performAll : ∀ (os : List Operation) (f : Fragment),
    (performAll f os).places = f.places ++ positions f.params.length (placedAll os) ∧
      (performAll f os).params.length = f.params.length + (placedAll os).length
  | [], f => by simp [performAll, placedAll, positions]
  | o :: os, f => by
    obtain ⟨places, length⟩ := places_perform o f
    obtain ⟨later, total⟩ := places_performAll os (o.perform f)
    rw [performAll, placedAll, later, total, places, length, positions_append, List.length_append,
      List.append_assoc, Nat.add_assoc]
    exact ⟨rfl, rfl⟩

end

end Operation

namespace Fragment

theorem places_built (d : Dialect) (os : List Operation) :
    (built d os).places = positions 0 (Operation.placedAll os) :=
  (Operation.places_performAll os (.blank d)).1

theorem length_params_built (d : Dialect) (os : List Operation) :
    (built d os).params.length = (Operation.placedAll os).length :=
  (Operation.places_performAll os (.blank d)).2.trans (Nat.zero_add _)

theorem length_places (f : Fragment) : f.places.length = f.placeholderCount := by
  rw [places, List.length_filterMap_eq_countP, placeholderCount]
  congr 1
  funext p
  cases p <;> rfl

/-- What holds of a fragment however it was put together. -/
structure Sound (f : Fragment) : Prop where
  tidy : Part.Tidy f.parts
  increasing : f.places.Pairwise (· < ·)
  below : ∀ i ∈ f.places, i < f.params.length

theorem sound_built (d : Dialect) (os : List Operation) : (built d os).Sound where
  tidy := tidy_built d os
  increasing := places_built d os ▸ pairwise_positions
  below i hi := by
    rw [places_built] at hi
    rw [length_params_built]
    simpa using lt_of_mem_positions hi

/-- There are as many values as placeholders and values without one. -/
theorem length_params_built_eq_add (d : Dialect) (os : List Operation) :
    (built d os).params.length =
      (built d os).placeholderCount + (Operation.placedAll os).count false := by
  rw [length_params_built, ← length_places, places_built, length_positions,
    List.count_true_add_count_false]

end Fragment

/-! ## The places of the placeholders in a statement -/

/-- Whether a slot is a stretch of a text that starts at `start`, and the mark of its parameter stands
there. -/
structure Slot.Shows (mark : Nat → List Char) (text : List Char) (start : Nat) (a : Slot) : Prop where
  after : start ≤ a.start
  ordered : a.start ≤ a.stop
  inside : a.stop ≤ start + text.length
  marked : (text.drop (a.start - start)).take (a.stop - a.start) = mark a.param

theorem Slot.Shows.behind {mark : Nat → List Char} {text : List Char} {start : Nat} {a : Slot}
    {cs : List Char} (h : a.Shows mark text (start + cs.length)) : a.Shows mark (cs ++ text) start where
  after := Nat.le_of_add_right_le h.after
  ordered := h.ordered
  inside := by
    have := h.inside
    rw [List.length_append]
    omega
  marked := by
    have := h.after
    rw [← h.marked, show a.start - start = cs.length + (a.start - (start + cs.length)) by omega,
      List.drop_append, List.drop_of_length_le (by omega), List.nil_append]
    congr 2
    omega

namespace Part

theorem shows_layout (mark : Nat → List Char) (start : Nat) (ps : List Part) :
    ∀ a ∈ (layout mark start ps).2, a.Shows mark (layout mark start ps).1 start := by
  fun_induction layout mark start ps with
  | case1 => simp
  | case2 start cs ps rest slots h ih =>
    rw [h] at ih
    exact fun a ha => (ih a ha).behind
  | case3 start index ps stop rest slots h ih =>
    rw [h] at ih
    intro a ha
    rcases List.mem_cons.mp ha with rfl | ha
    · exact ⟨Nat.le_refl _, Nat.le_add_right _ _, by simp [stop], by simp [stop]⟩
    · exact (ih a ha).behind

theorem pairwise_layout (mark : Nat → List Char) (start : Nat) (ps : List Part) :
    (layout mark start ps).2.Pairwise fun a b => a.stop ≤ b.start := by
  fun_induction layout mark start ps with
  | case1 => exact .nil
  | case2 start cs ps rest slots h ih => rwa [h] at ih
  | case3 start index ps stop rest slots h ih =>
    have shown := shows_layout mark stop ps
    rw [h] at ih shown
    exact .cons (fun b hb => (shown b hb).after) ih

/-- A parameter has its slot behind the text of the parts before it. -/
theorem mem_snd_layout (mark : Nat → List Char) (start : Nat) (before : List Part) (index : Nat)
    (after : List Part) :
    let position := start + (before.flatMap (chars mark)).length
    ⟨position, position + (mark index).length, index⟩ ∈
      (layout mark start (before ++ .parameter index :: after)).2 := by
  intro position
  induction before generalizing start with
  | nil => exact List.mem_cons_self
  | cons p before ih =>
    have here := ih (start + (p.chars mark).length)
    have moved : position =
        start + (p.chars mark).length + (before.flatMap (chars mark)).length := by
      simp [position, Nat.add_assoc]
    rw [← moved] at here
    cases p with
    | text cs => exact here
    | parameter i => exact List.mem_cons_of_mem _ here

end Part

/-- What holds of a finished statement of a dialect: the slots are stretches of the text one after
another, each shows the placeholder of its parameter, and no value is missing. -/
structure Statement.Sound (d : Dialect) (s : Statement) : Prop where
  apart : s.slots.Pairwise fun a b => a.stop ≤ b.start
  inside : ∀ a ∈ s.slots, a.start ≤ a.stop ∧ a.stop ≤ s.sql.length
  shown : ∀ a ∈ s.slots, s.between a.start a.stop = d.placeholder (a.param + 1)
  valid : s.validate = .ok ()

/-- The statement of a fragment: it has the text and the values, and its slots are for the parameters
in order. Where a parameter comes after some parts, its slot starts behind their text. -/
structure Statement.Represents (s : Statement) (f : Fragment) : Prop where
  sql : s.sql = f.sql
  params : s.params = f.params
  order : s.slots.map Slot.param = f.places
  position : ∀ before index after, f.parts = before ++ .parameter index :: after →
    let mark (index : Nat) := f.dialect.placeholder (index + 1)
    ∃ a ∈ s.slots, a.param = index ∧ a.start = (before.flatMap (Part.chars mark)).length

theorem Fragment.represents_finish (f : Fragment) : f.finish.Represents f where
  sql := f.sql_finish
  params := f.params_finish
  order := f.map_param_slots_finish
  position before index after h := by
    intro mark
    have here := Part.mem_snd_layout mark 0 before index after
    rw [← h, Nat.zero_add] at here
    exact ⟨_, here, rfl, rfl⟩

theorem Fragment.length_slots_finish (f : Fragment) : f.finish.slots.length = f.placeholderCount := by
  rw [← length_places, ← map_param_slots_finish, List.length_map]

theorem Fragment.sound_finish {f : Fragment} (h : f.placeholderCount ≤ f.params.length) :
    f.finish.Sound f.dialect where
  apart := Part.pairwise_layout _ 0 f.parts
  inside a ha := by
    have shown := Part.shows_layout _ 0 f.parts a ha
    exact ⟨shown.ordered, by simpa [finish] using shown.inside⟩
  shown a ha := (Part.shows_layout _ 0 f.parts a ha).marked
  valid := by
    rw [Statement.validate, length_slots_finish, params_finish, if_neg (Nat.not_lt.mpr h)]

/-- However operations build a fragment, from fragments of whatever dialects: no text in it is empty
and no two texts meet; its parameters come in order and have values; all values have one but those
that were bound without. So the finished statement, which has the text, the values and the parameters
of the fragment, has its placeholders one after another where its slots say, in the spelling of its
own dialect, and lacks no value. -/
theorem built_sound (d : Dialect) (os : List Operation) :
    (Fragment.built d os).Sound ∧
      (Fragment.built d os).params.length =
        (Fragment.built d os).placeholderCount + (Operation.placedAll os).count false ∧
      (Fragment.built d os).finish.Sound d ∧
      (Fragment.built d os).finish.Represents (Fragment.built d os) := by
  have total := Fragment.length_params_built_eq_add d os
  have finished : (Fragment.built d os).finish.Sound (Fragment.built d os).dialect :=
    Fragment.sound_finish (by omega)
  rw [Fragment.dialect_built] at finished
  exact ⟨Fragment.sound_built d os, total, finished, Fragment.represents_finish _⟩

end SqlClause
