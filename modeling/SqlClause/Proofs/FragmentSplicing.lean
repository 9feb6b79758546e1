import SqlClause.Fragment.Group

/-! # Splicing of fragments

Texts that meet are joined, so the parts of a fragment do not show how it was put together: to append
is associative, and to go on writing at the end of an appended fragment is to append what was
written. A fragment is void if and only if all that was put into it was void. -/

namespace SqlClause

namespace Part

theorem addText_cons_cons (cs : List Char) (p q : Part) (ps : List Part) :
    addText cs (p :: q :: ps) = p :: addText cs (q :: ps) := by
  cases p <;> rfl

@[simp] theorem addText_nil (ps : List Part) : addText [] ps = ps := by
  induction ps with
  | nil => rfl
  | cons p ps ih => cases p <;> cases ps <;> simp_all [addText]

theorem addText_addText (cs ds : List Char) (ps : List Part) :
    addText cs (addText ds ps) = addText (ds ++ cs) ps := by
  fun_induction addText ds ps with
  | case1 h => simp [h]
  | case2 h => simp [addText, h]
  | case3 es => simp [addText]
  | case4 p ps h ih =>
    cases ps with
    | nil =>
      cases p with
      | text es => exact absurd rfl (h es rfl)
      | parameter index =>
        by_cases hd : ds = [] <;> simp_all [addText]
    | cons q ps => cases q <;> cases ps <;> simp_all [addText]

theorem foldl_add_addText (cs : List Char) (ps qs : List Part) :
    (addText cs qs).foldl add ps = addText cs (qs.foldl add ps) := by
  fun_induction addText cs qs generalizing ps with
  | case1 h => simp [h]
  | case2 h => rfl
  | case3 ds => exact (addText_addText cs ds ps).symm
  | case4 q qs h ih => exact ih (add ps q)

theorem foldl_add_add (ps qs : List Part) (r : Part) :
    (add qs r).foldl add ps = add (qs.foldl add ps) r := by
  cases r with
  | text cs => exact foldl_add_addText cs ps qs
  | parameter index => rw [add, List.foldl_append]; rfl

theorem foldl_add_foldl_add (ps qs rs : List Part) :
    (rs.foldl add qs).foldl add ps = rs.foldl add (qs.foldl add ps) := by
  induction rs generalizing qs with
  | nil => rfl
  | cons r rs ih => rw [List.foldl_cons, ih, foldl_add_add, List.foldl_cons]

theorem shift_shift (m n : Nat) (p : Part) : (p.shift m).shift n = p.shift (n + m) := by
  cases p with
  | text cs => rfl
  | parameter index => simp only [shift, parameter.injEq]; omega

/-- Texts are changed character by character, and parameters stay parameters. -/
structure Rewrites (φ : Part → Part) (σ : Char → Char) : Prop where
  text : ∀ cs, φ (.text cs) = .text (cs.map σ)
  parameter : ∀ index, ∃ index', φ (.parameter index) = .parameter index'

namespace Rewrites

variable {φ : Part → Part} {σ : Char → Char} (h : Rewrites φ σ)

include h

theorem map_addText (cs : List Char) (ps : List Part) :
    (addText cs ps).map φ = addText (cs.map σ) (ps.map φ) := by
  fun_induction addText cs ps with
  | case1 hcs => simp [hcs]
  | case2 hcs => simp [addText, hcs, h.text]
  | case3 ds => simp [addText, h.text]
  | case4 p ps single ih =>
    cases p with
    | text ds =>
      cases ps with
      | nil => exact absurd rfl (single ds rfl)
      | cons q ps => rw [List.map_cons, ih]; exact (addText_cons_cons _ _ _ _).symm
    | parameter index =>
      obtain ⟨index', hp⟩ := h.parameter index
      rw [List.map_cons, List.map_cons, ih, hp]
      rfl

theorem map_foldl_add (ps qs : List Part) :
    (qs.foldl add ps).map φ = (qs.map φ).foldl add (ps.map φ) := by
  induction qs generalizing ps with
  | nil => rfl
  | cons q qs ih =>
    rw [List.foldl_cons, ih, List.map_cons, List.foldl_cons]
    congr 1
    cases q with
    | text cs => rw [h.text]; exact h.map_addText cs ps
    | parameter index =>
      obtain ⟨index', hp⟩ := h.parameter index
      simp [add, hp]

end Rewrites

theorem rewrites_shift (n : Nat) : Rewrites (shift n) id where
  text cs := by rw [List.map_id]; rfl
  parameter index := ⟨index + n, rfl⟩

theorem map_shift_addText (n : Nat) (cs : List Char) (ps : List Part) :
    (addText cs ps).map (shift n) = addText cs (ps.map (shift n)) := by
  rw [(rewrites_shift n).map_addText, List.map_id]

theorem map_shift_foldl_add (n : Nat) (ps qs : List Part) :
    (qs.foldl add ps).map (shift n) = (qs.map (shift n)).foldl add (ps.map (shift n)) :=
  (rewrites_shift n).map_foldl_add ps qs

theorem all_addText (cs : List Char) (ps : List Part) :
    (addText cs ps).all (· = .text []) = (ps.all (· = .text []) && cs.isEmpty) := by
  fun_induction addText cs ps with
  | case1 h => simp [h]
  | case2 h => cases cs <;> simp
  | case3 ds => cases ds <;> cases cs <;> simp
  | case4 p ps h ih => rw [List.all_cons, ih, List.all_cons, Bool.and_assoc]

theorem all_foldl_add (ps qs : List Part) :
    (qs.foldl add ps).all (· = .text []) =
      (ps.all (· = .text []) && qs.all (· = .text [])) := by
  induction qs generalizing ps with
  | nil => simp
  | cons q qs ih =>
    rw [List.foldl_cons, ih, List.all_cons, ← Bool.and_assoc]
    congr 1
    cases q with
    | text cs => rw [add, all_addText]; cases cs <;> simp
    | parameter index => simp [add]

end Part

namespace Fragment

@[simp] theorem dialect_blank (d : Dialect) : (blank d).dialect = d := rfl

@[simp] theorem params_blank (d : Dialect) : (blank d).params = [] := rfl

@[simp] theorem dialect_write (f : Fragment) (cs : List Char) :
    (f.write cs).dialect = f.dialect := rfl

@[simp] theorem dialect_writeName (f : Fragment) (name : String) :
    (f.writeName name).dialect = f.dialect := rfl

@[simp] theorem dialect_writeColumn (f : Fragment) (c : Column) :
    (f.writeColumn c).dialect = f.dialect := by
  unfold writeColumn
  cases c.table <;> cases c.label <;> simp only <;> split <;> rfl

@[simp] theorem dialect_bind (f : Fragment) (v : Value) : (f.bind v).dialect = f.dialect := rfl

@[simp] theorem dialect_supply (f : Fragment) (v : Value) : (f.supply v).dialect = f.dialect := rfl

@[simp] theorem dialect_bindAll (f : Fragment) (vs : List Value) :
    (f.bindAll vs).dialect = f.dialect := by
  fun_induction bindAll f vs <;> simp_all

@[simp] theorem dialect_supplyAll (f : Fragment) (vs : List Value) :
    (f.supplyAll vs).dialect = f.dialect := by
  induction vs generalizing f with
  | nil => rfl
  | cons v vs ih => exact ih (f.supply v)

@[simp] theorem dialect_append (f g : Fragment) : (f.append g).dialect = f.dialect := rfl

@[simp] theorem dialect_bracketed (f g : Fragment) : (f.bracketed g).dialect = f.dialect := rfl

@[simp] theorem dialect_appendOperand (f g : Fragment) :
    (f.appendOperand g).dialect = f.dialect := by
  unfold appendOperand
  split <;> rfl

section Params

@[simp] theorem params_writeName (f : Fragment) (name : String) :
    (f.writeName name).params = f.params := rfl

@[simp] theorem params_writeColumn (f : Fragment) (c : Column) :
    (f.writeColumn c).params = f.params := by
  unfold writeColumn
  cases c.table <;> cases c.label <;> simp only <;> split <;> rfl

@[simp] theorem params_bindAll (f : Fragment) (vs : List Value) :
    (f.bindAll vs).params = f.params ++ vs := by
  fun_induction bindAll f vs <;> simp_all

@[simp] theorem params_supplyAll (f : Fragment) (vs : List Value) :
    (f.supplyAll vs).params = f.params ++ vs := by
  induction vs generalizing f with
  | nil => simp [supplyAll]
  | cons v vs ih =>
    rw [supplyAll, List.foldl_cons]
    exact (ih (f.supply v)).trans (by simp)

@[simp] theorem params_bracketed (f g : Fragment) :
    (f.bracketed g).params = f.params ++ g.params := rfl

@[simp] theorem params_appendOperand (f g : Fragment) :
    (f.appendOperand g).params = f.params ++ g.params := by
  unfold appendOperand
  split <;> simp

theorem params_addOperand (f : Fragment) (p : Operand) :
    (f.addOperand p).params = f.params ++ p.fragment.params := by
  unfold addOperand
  split <;> simp

theorem params_addJoined (f : Fragment) (separator : List Char) (ps : List Operand) :
    (f.addJoined separator ps).params = f.params ++ ps.flatMap (·.fragment.params) := by
  fun_induction addJoined f separator ps with
  | case1 f => simp
  | case2 f p => simp [params_addOperand]
  | case3 f p ps h ih => simp [ih, params_addOperand]

end Params

section Append

@[simp] theorem append_blank (f : Fragment) (d : Dialect) : f.append (blank d) = f := by
  simp [append, blank]

theorem append_assoc (f g h : Fragment) : (f.append g).append h = f.append (g.append h) := by
  obtain ⟨d, ps, us⟩ := f
  simp only [append, mk.injEq, true_and, List.append_assoc, and_true, Part.map_shift_foldl_add,
    Part.foldl_add_foldl_add, List.map_map]
  congr 2
  funext p
  rw [Function.comp, Part.shift_shift, List.length_append]

theorem write_write (f : Fragment) (cs ds : List Char) :
    (f.write cs).write ds = f.write (cs ++ ds) := by
  simp [write, Part.addText_addText]

theorem append_write (f g : Fragment) (cs : List Char) :
    (f.append g).write cs = f.append (g.write cs) := by
  simp only [append, write, Part.map_shift_addText, Part.foldl_add_addText]

theorem append_bind (f g : Fragment) (v : Value) : (f.append g).bind v = f.append (g.bind v) := by
  simp [append, bind, Part.add, Part.shift, Nat.add_comm]

theorem append_supply (f g : Fragment) (v : Value) :
    (f.append g).supply v = f.append (g.supply v) := by
  simp [append, supply]

theorem append_bindAll (f g : Fragment) (vs : List Value) :
    (f.append g).bindAll vs = f.append (g.bindAll vs) := by
  fun_induction bindAll g vs with
  | case1 g => rfl
  | case2 g v => exact append_bind f g v
  | case3 g v vs h ih => rw [bindAll, append_bind, append_write, ih]; exact h

theorem append_supplyAll (f g : Fragment) (vs : List Value) :
    (f.append g).supplyAll vs = f.append (g.supplyAll vs) := by
  induction vs generalizing g with
  | nil => rfl
  | cons v vs ih =>
    rw [supplyAll, List.foldl_cons, append_supply]
    exact ih (g.supply v)

theorem append_writeName (f g : Fragment) (h : g.dialect = f.dialect) (name : String) :
    (f.append g).writeName name = f.append (g.writeName name) := by
  rw [writeName, writeName, append_write, h, dialect_append]

theorem append_writeColumn (f g : Fragment) (h : g.dialect = f.dialect) (c : Column) :
    (f.append g).writeColumn c = f.append (g.writeColumn c) := by
  obtain ⟨table, name, label, raw⟩ := c
  cases table <;> cases label <;> simp only [writeColumn] <;> split <;>
    simp [append_write, append_writeName, h]

theorem append_bracketed (f g h : Fragment) :
    (f.append g).bracketed h = f.append (g.bracketed h) := by
  simp only [bracketed, append_write, append_assoc]

theorem append_appendOperand (f g h : Fragment) :
    (f.append g).appendOperand h = f.append (g.appendOperand h) := by
  unfold appendOperand
  split
  · exact append_assoc f g h
  · exact append_bracketed f g h

theorem append_addOperand (f g : Fragment) (p : Operand) :
    (f.append g).addOperand p = f.append (g.addOperand p) := by
  unfold addOperand
  split
  · exact append_bracketed f g p.fragment
  · exact append_assoc f g p.fragment

theorem append_addJoined (f g : Fragment) (separator : List Char) (ps : List Operand) :
    (f.append g).addJoined separator ps = f.append (g.addJoined separator ps) := by
  fun_induction addJoined g separator ps with
  | case1 g => rfl
  | case2 g p => exact append_addOperand f g p
  | case3 g p ps h ih => rw [addJoined, append_addOperand, append_write, ih]; exact h

end Append

section Wordless

/-- Without a text; values may be bound. -/
def isWordless (f : Fragment) : Bool := f.parts.all (· = .text [])

variable {f g : Fragment}

theorem isVoid_eq (f : Fragment) : f.isVoid = (f.params.isEmpty && f.isWordless) := rfl

theorem isVoid_of_isWordless_eq_false (h : f.isWordless = false) : f.isVoid = false := by
  rw [isVoid_eq, h, Bool.and_false]

theorem chars_of_isWordless (h : f.isWordless = true) (mark : Nat → List Char) :
    f.chars mark = [] := by
  simp only [isWordless, List.all_eq_true, decide_eq_true_eq] at h
  refine List.flatMap_eq_nil_iff.mpr fun p hp => ?_
  rw [h p hp]
  rfl

@[simp] theorem isWordless_blank (d : Dialect) : (blank d).isWordless = true := rfl

@[simp] theorem isWordless_write (f : Fragment) (cs : List Char) :
    (f.write cs).isWordless = (f.isWordless && cs.isEmpty) := Part.all_addText cs f.parts

@[simp] theorem isWordless_bind (f : Fragment) (v : Value) : (f.bind v).isWordless = false := by
  simp [isWordless, bind]

@[simp] theorem isWordless_supply (f : Fragment) (v : Value) :
    (f.supply v).isWordless = f.isWordless := rfl

@[simp] theorem isWordless_append (f g : Fragment) :
    (f.append g).isWordless = (f.isWordless && g.isWordless) := by
  have shifted : (g.parts.map (Part.shift f.params.length)).all (· = .text []) = g.isWordless := by
    rw [isWordless, List.all_map]
    congr 1
    funext p
    cases p <;> simp [Part.shift]
  rw [isWordless, append, Part.all_foldl_add, shifted]
  rfl

@[simp] theorem isWordless_bracketed (f g : Fragment) : (f.bracketed g).isWordless = false := by
  simp [bracketed]

/-- An empty text is atomic, so brackets never stand around nothing. -/
theorem isWordless_of_not_isAtomic (h : ¬g.isAtomic = true) : g.isWordless = false := by
  refine Bool.eq_false_iff.mpr fun hw => h ?_
  simp [isAtomic, Atom.isAtomic, canonical, chars_of_isWordless hw]

@[simp] theorem isWordless_appendOperand (f g : Fragment) :
    (f.appendOperand g).isWordless = (f.isWordless && g.isWordless) := by
  unfold appendOperand
  split
  · exact isWordless_append f g
  · rename_i h
    rw [isWordless_of_not_isAtomic h, isWordless_bracketed, Bool.and_false]

end Wordless

section Void

@[simp] theorem isVoid_blank (d : Dialect) : (blank d).isVoid = true := rfl

@[simp] theorem isVoid_write (f : Fragment) (cs : List Char) :
    (f.write cs).isVoid = (f.isVoid && cs.isEmpty) := by
  simp only [isVoid, write, Part.all_addText, Bool.and_assoc]

@[simp] theorem isVoid_bind (f : Fragment) (v : Value) : (f.bind v).isVoid = false := by
  simp [isVoid, bind]

@[simp] theorem isVoid_supply (f : Fragment) (v : Value) : (f.supply v).isVoid = false := by
  simp [isVoid, supply]

theorem isVoid_iff {f : Fragment} :
    f.isVoid = true ↔ f.params = [] ∧ f.parts.all (· = .text []) = true := by
  rw [isVoid, Bool.and_eq_true, List.isEmpty_iff]

theorem isVoid_eq_and {f g h : Fragment} (words : h.isWordless = (f.isWordless && g.isWordless))
    (params : h.params = f.params ++ g.params) : h.isVoid = (f.isVoid && g.isVoid) := by
  rw [Bool.eq_iff_iff]
  simp only [isVoid_eq, words, params, Bool.and_eq_true, List.isEmpty_iff, List.append_eq_nil_iff]
  exact and_and_and_comm

@[simp] theorem isVoid_append (f g : Fragment) :
    (f.append g).isVoid = (f.isVoid && g.isVoid) :=
  isVoid_eq_and (isWordless_append f g) (params_append f g)

@[simp] theorem isVoid_bracketed (f g : Fragment) : (f.bracketed g).isVoid = false :=
  isVoid_of_isWordless_eq_false (isWordless_bracketed f g)

theorem chars_of_isVoid {f : Fragment} (h : f.isVoid = true) (mark : Nat → List Char) :
    f.chars mark = [] :=
  chars_of_isWordless (isVoid_iff.mp h).2 mark

@[simp] theorem isVoid_appendOperand (f g : Fragment) :
    (f.appendOperand g).isVoid = (f.isVoid && g.isVoid) :=
  isVoid_eq_and (isWordless_appendOperand f g) (params_appendOperand f g)

theorem append_of_isVoid (f : Fragment) {g : Fragment} (h : g.isVoid = true) : f.append g = f := by
  simp only [isVoid_iff, List.all_eq_true, decide_eq_true_eq] at h
  obtain ⟨hparams, hparts⟩ := h
  have texts : ∀ ps qs : List Part, (∀ p ∈ qs, p = .text []) → qs.foldl Part.add ps = ps := by
    intro ps qs hqs
    induction qs generalizing ps with
    | nil => rfl
    | cons q qs ih =>
      obtain rfl := hqs q List.mem_cons_self
      rw [List.foldl_cons, Part.add, Part.addText_nil]
      exact ih ps fun p hp => hqs p (List.mem_cons_of_mem _ hp)
  have hall : ∀ p ∈ g.parts.map (Part.shift f.params.length), p = .text [] := by
    intro p hp
    obtain ⟨q, hq, rfl⟩ := List.mem_map.mp hp
    rw [hparts q hq]
    rfl
  rw [append, texts _ _ hall, hparams, List.append_nil]

end Void

section Group

variable {f : Fragment} {separator : List Char} {ps : List Operand}

/-- The operands of a group that are written. -/
def shown (ps : List Operand) : List Operand := ps.filter (!·.fragment.isVoid)

theorem addGroup_of_shown_nil (h : shown ps = []) : f.addGroup separator ps = ⟨f, false⟩ := by
  rw [shown] at h
  rw [addGroup, h]

theorem addGroup_of_shown_single {p : Operand} (h : shown ps = [p]) :
    f.addGroup separator ps = ⟨f.append p.fragment, p.loose⟩ := by
  rw [shown] at h
  rw [addGroup, h]

theorem addGroup_of_shown_many {p q : Operand} {qs : List Operand} (h : shown ps = p :: q :: qs) :
    f.addGroup separator ps =
      ⟨((f.write ['(']).addJoined separator (p :: q :: qs)).write [')'], false⟩ := by
  rw [shown] at h
  rw [addGroup, h]

theorem params_addGroup (f : Fragment) (separator : List Char) (ps : List Operand) :
    (f.addGroup separator ps).fragment.params =
      f.params ++ ps.flatMap (·.fragment.params) := by
  have all : (shown ps).flatMap (·.fragment.params) = ps.flatMap (·.fragment.params) := by
    induction ps with
    | nil => rfl
    | cons p ps ih =>
      rw [shown, List.filter_cons, List.flatMap_cons, ← ih]
      cases h : p.fragment.isVoid with
      | true => simp [(isVoid_iff.mp h).1, shown]
      | false => simp [shown]
  rw [← all]
  match h : shown ps with
  | [] => simp [addGroup_of_shown_nil h]
  | [p] => simp [addGroup_of_shown_single h]
  | p :: q :: qs => simp [addGroup_of_shown_many h, params_addJoined]

end Group

end Fragment

end SqlClause
