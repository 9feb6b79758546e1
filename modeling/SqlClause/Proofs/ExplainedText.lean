import Mathlib
import SqlClause.Proofs.TemplateWalk

/-! # Explanations show values in the places of their parameters

The slots of a statement are noted while its text is put together. A walk over them copies the text
between two slots, and shows a value in the place of each. It comes to the parts of the fragment one by
one, whether places are counted in characters or in bytes, and whatever values the statement has been
given since. -/

namespace SqlClause

namespace Part

/-- A part in an explanation. A parameter for which there is no value keeps its mark. -/
def explained (mark : Nat → List Char) (vs : List Value) : Part → List Char
  | .text cs => cs
  | .parameter index =>
    match vs[index]? with
    | some v => v.literal
    | none => mark index

/-- The slots of the parameters where `size` measures texts, when the text of the parts starts at
`start`. -/
def slotsBy (size : List Char → Nat) (mark : Nat → List Char) (start : Nat) : List Part → List Slot
  | [] => []
  | .text cs :: ps => slotsBy size mark (start + size cs) ps
  | .parameter index :: ps =>
    ⟨start, start + size (mark index), index⟩ :: slotsBy size mark (start + size (mark index)) ps

theorem snd_layout (mark : Nat → List Char) (start : Nat) (ps : List Part) :
    (layout mark start ps).2 = slotsBy List.length mark start ps := by
  fun_induction layout mark start ps with
  | case1 => rfl
  | case2 start cs ps rest slots h ih =>
    rw [h] at ih
    exact ih
  | case3 start index ps stop rest slots h ih =>
    rw [h] at ih
    rw [slotsBy, ← ih]

end Part

/-- The slots of a finished fragment in bytes of its text. -/
def Fragment.byteSlots (f : Fragment) : List Slot :=
  Part.slotsBy Text.size (fun index => f.dialect.placeholder (index + 1)) 0 f.parts

namespace Slot

/-- The text from the cursor up to `stop`, with a value shown in each slot that has one. Texts are
taken between two places by `slice`, which may fail. -/
def walk (slice : Nat → Nat → Option (List Char)) (vs : List Value) (stop cursor : Nat) :
    List Slot → Option (List Char)
  | [] => slice cursor stop
  | slot :: slots => do
    let before ← slice cursor slot.start
    let shown ← match vs[slot.param]? with
      | some v => some v.literal
      | none => slice slot.start slot.stop
    let after ← walk slice vs stop slot.stop slots
    return before ++ shown ++ after

end Slot

/-- The explanation of a statement by slots in bytes, unless a slice of its text is out of range or
splits a character. -/
def Statement.explainBytes? (s : Statement) (slots : List Slot) : Option (List Char) :=
  Slot.walk (fun start stop => Text.slice? start stop s.sql) s.params (Text.size s.sql) 0 slots

/-! ## One walk for characters and for bytes -/

/-- What is sliced between the places of two prefixes of a text is what lies between them. -/
structure Text.Slices (size : List Char → Nat) (slice : Nat → Nat → Option (List Char))
    (text : List Char) : Prop where
  empty : size [] = 0
  append : ∀ xs ys, size (xs ++ ys) = size xs + size ys
  between : ∀ xs ys zs, text = xs ++ ys ++ zs → slice (size xs) (size (xs ++ ys)) = some ys

theorem Text.slices_bytes (text : List Char) :
    Slices size (fun start stop => slice? start stop text) text where
  empty := rfl
  append := size_append
  between xs ys zs h := h ▸ slice?_size xs ys zs

theorem Statement.slices_characters (s : Statement) :
    Text.Slices List.length (fun start stop => some (s.between start stop)) s.sql where
  empty := rfl
  append _ _ := List.length_append
  between xs ys zs h := by
    rw [Statement.between, h, List.length_append, Nat.add_sub_cancel_left, List.append_assoc,
      List.drop_left, List.take_left]

namespace Slot

variable {size : List Char → Nat} {slice : Nat → Nat → Option (List Char)} {text : List Char}

/-- A cursor that stands behind `done` has `pending` to copy before the parts that are left. -/
theorem walk_slotsBy (h : Text.Slices size slice text) (mark : Nat → List Char) (vs : List Value)
    {ps : List Part} {done pending : List Char}
    (htext : text = done ++ pending ++ ps.flatMap (Part.chars mark)) :
    walk slice vs (size text) (size done) (Part.slotsBy size mark (size (done ++ pending)) ps) =
      some (pending ++ ps.flatMap (Part.explained mark vs)) := by
  induction ps generalizing done pending with
  | nil =>
    have rest := h.between done pending [] htext
    rw [List.flatMap_nil, List.append_nil] at htext
    rw [Part.slotsBy, walk, htext, rest, List.flatMap_nil, List.append_nil]
  | cons p ps ih =>
    rw [List.flatMap_cons, ← List.append_assoc] at htext
    cases p with
    | text cs =>
      rw [Part.chars, List.append_assoc done] at htext
      have here := ih htext
      rw [← List.append_assoc, h.append _ cs] at here
      rw [Part.slotsBy, here, List.flatMap_cons, Part.explained, List.append_assoc]
    | parameter index =>
      rw [Part.chars] at htext
      have before := h.between done pending (mark index ++ ps.flatMap (Part.chars mark))
        (by rw [htext, List.append_assoc _ (mark index)])
      have itself := h.between _ _ _ htext
      have after := @ih (done ++ pending ++ mark index) [] (by rwa [List.append_nil])
      rw [List.append_nil, h.append _ (mark index), List.nil_append] at after
      rw [h.append _ (mark index)] at itself
      rw [Part.slotsBy, walk, before, itself, after, List.flatMap_cons, Part.explained]
      cases vs[index]? <;> simp

theorem walk_characters (s : Statement) (cursor : Nat) (slots : List Slot) :
    walk (fun start stop => some (s.between start stop)) s.params s.sql.length cursor slots =
      some (s.explainFrom cursor slots) := by
  induction slots generalizing cursor with
  | nil => rw [walk, Statement.explainFrom, Statement.between, List.take_of_length_le (by simp)]
  | cons slot slots ih =>
    rw [walk, ih, Statement.explainFrom]
    cases s.params[slot.param]? <;> rfl

end Slot

/-- Whatever values a finished statement is given, its explanation is made of the parts of the fragment
one by one: each text as it is, and each parameter as the literal of its value, or as its placeholder
if it has none. Counted in bytes, the slots lead to the same explanation, and no slice is out of range
or splits a character. -/
theorem explanation_shows_values (f : Fragment) (vs : List Value) :
    let s : Statement := { f.finish with params := vs }
    let shown := f.parts.flatMap (Part.explained (fun index => f.dialect.placeholder (index + 1)) vs)
    s.explain = shown ∧ s.explainBytes? f.byteSlots = some shown := by
  intro s shown
  have text : s.sql =
      [] ++ [] ++ f.parts.flatMap (Part.chars fun index => f.dialect.placeholder (index + 1)) :=
    f.sql_finish
  have slots : s.slots =
      Part.slotsBy List.length (fun index => f.dialect.placeholder (index + 1)) 0 f.parts :=
    Part.snd_layout _ 0 f.parts
  have characters := Slot.walk_slotsBy s.slices_characters _ vs text
  have bytes := Slot.walk_slotsBy (Text.slices_bytes s.sql) _ vs text
  refine ⟨Option.some.inj ?_, bytes⟩
  rw [Statement.explain, slots, ← Slot.walk_characters]
  exact characters

end SqlClause
