import Mathlib
import SqlClause.Expr.Render
import SqlClause.Proofs.EncodedText

/-! # Abridged texts

A text that takes more bytes than there is room for is cut where the last character ends that still
fits. Among the bytes that place is found by going back from the room, at most three bytes, to a
byte that starts a character. -/

namespace SqlClause

namespace Text

/-- The longest beginning of whole characters that takes at most `room` bytes. -/
structure IsLongestFitting (room : Nat) (cs kept : List Char) : Prop where
  beginning : kept <+: cs
  fits : size kept ≤ room
  longest : ∀ p, p <+: cs → size p ≤ room → p <+: kept

/-- What is shown of a text for which there is so much room. -/
inductive IsAbridged (room : Nat) (cs : List Char) : List Char → Prop where
  | whole (h : size cs ≤ room) : IsAbridged room cs cs
  | cut {kept : List Char} (h : room < size cs) (longest : IsLongestFitting room cs kept) :
      IsAbridged room cs (kept ++ ['.', '.', '.'])

/-- The last boundary up to an offset, unless the search would go below zero. -/
def lastBoundary? (bytes : List UInt8) : Nat → Option Nat
  | 0 => if isBoundary bytes 0 then some 0 else none
  | offset + 1 =>
    if isBoundary bytes (offset + 1) then some (offset + 1) else lastBoundary? bytes offset

/-- The bytes up to the last boundary for which there is room. -/
def cut? (room : Nat) (bytes : List UInt8) : Option (List UInt8) :=
  if bytes.length ≤ room then some bytes else (lastBoundary? bytes room).map bytes.take

/-- The bytes of an abridged text. -/
def abridgedBytes? (room : Nat) (bytes : List UInt8) : Option (List UInt8) :=
  if room < bytes.length then (cut? room bytes).map (· ++ encoded ['.', '.', '.']) else some bytes

variable {room : Nat} {cs : List Char}

/-! ## The longest beginning that fits -/

theorem fitting_isPrefix (room : Nat) (cs : List Char) : fitting room cs <+: cs := by
  induction cs generalizing room with
  | nil => exact List.prefix_rfl
  | cons c cs ih =>
    rw [fitting]
    split
    · exact List.cons_prefix_cons.mpr ⟨rfl, ih _⟩
    · exact List.nil_prefix

theorem isPrefix_fitting {p : List Char} (h : p <+: cs) (hp : size p ≤ room) :
    p <+: fitting room cs := by
  induction cs generalizing room p with
  | nil => exact h
  | cons c cs ih =>
    rcases List.prefix_cons_iff.mp h with rfl | ⟨q, rfl, hq⟩
    · exact List.nil_prefix
    · rw [size] at hp
      rw [fitting, if_pos (by omega)]
      exact List.cons_prefix_cons.mpr ⟨rfl, ih hq (by omega)⟩

theorem isLongestFitting_fitting (room : Nat) (cs : List Char) :
    IsLongestFitting room cs (fitting room cs) where
  beginning := fitting_isPrefix room cs
  fits := size_fitting_le room cs
  longest _ := isPrefix_fitting

theorem isAbridged_abridged (room : Nat) (cs : List Char) :
    IsAbridged room cs (abridged room cs) := by
  rw [abridged]
  split
  next h => exact .whole h
  next h => exact .cut (Nat.lt_of_not_le h) (isLongestFitting_fitting room cs)

/-- The character behind what fits would take more than the room that is left. -/
theorem exists_eq_fitting_append (h : room < size cs) :
    ∃ c rest, cs = fitting room cs ++ c :: rest ∧
      room < size (fitting room cs) + c.utf8Size := by
  obtain ⟨rest, hrest⟩ := fitting_isPrefix room cs
  have fits := size_fitting_le room cs
  cases rest with
  | nil =>
    rw [List.append_nil] at hrest
    rw [hrest] at fits
    omega
  | cons c rest =>
    refine ⟨c, rest, hrest.symm, Nat.lt_of_not_le fun more => ?_⟩
    have longer : fitting room cs ++ [c] <+: fitting room cs := by
      refine isPrefix_fitting ⟨rest, by simpa using hrest⟩ ?_
      rw [size_append]
      exact more
    have := longer.length_le
    simp at this

/-! ## The search among the bytes -/

/-- Within a character the search goes back to where it starts. -/
theorem lastBoundary?_within {c : Char} {k : Nat} (xs ys : List Char) (h : k < c.utf8Size) :
    lastBoundary? (encoded (xs ++ c :: ys)) (size xs + k) = some (size xs) := by
  -- by the number of bytes of the character before the offset
  induction k with
  | zero =>
    have here := isBoundary_size xs (c :: ys)
    rw [Nat.add_zero]
    cases hsize : size xs with
    | zero => rfl
    | succ n => rw [lastBoundary?, ← hsize, here, if_pos rfl]
  | succ k ih =>
    have inside : isBoundary (encoded (xs ++ c :: ys)) (size xs + k + 1) = false :=
      isBoundary_within xs ys (Nat.succ_pos k) h
    rw [← Nat.add_assoc, lastBoundary?, inside, if_neg Bool.false_ne_true, ih (by omega)]

theorem lastBoundary?_encoded (h : room < size cs) :
    lastBoundary? (encoded cs) room = some (size (fitting room cs)) ∧
      room ≤ size (fitting room cs) + 3 := by
  obtain ⟨c, rest, hcs, more⟩ := exists_eq_fitting_append h
  have fits := size_fitting_le room cs
  have four : c.utf8Size ≤ 4 := c.utf8Size_le_four
  have found := lastBoundary?_within (fitting room cs) rest
    (show room - size (fitting room cs) < c.utf8Size by omega)
  rw [← hcs, Nat.add_sub_cancel' fits] at found
  exact ⟨found, by omega⟩

theorem take_encoded_of_isPrefix {p : List Char} (h : p <+: cs) :
    (encoded cs).take (size p) = encoded p := by
  obtain ⟨rest, rfl⟩ := h
  rw [encoded_append, ← length_encoded, List.take_left]

theorem abridgedBytes?_encoded (room : Nat) (cs : List Char) :
    abridgedBytes? room (encoded cs) = some (encoded (abridged room cs)) := by
  rw [abridgedBytes?, cut?, length_encoded, abridged]
  by_cases h : room < size cs
  · rw [if_pos h, if_neg (Nat.not_le.mpr h), if_neg (Nat.not_le.mpr h),
      (lastBoundary?_encoded h).1, Option.map_some, take_encoded_of_isPrefix (fitting_isPrefix _ _),
      Option.map_some, ← encoded_append]
  · rw [if_neg h, if_pos (Nat.le_of_not_lt h)]

end Text

open Text

/-- The explanation of a statement and the text in the log are shown as they are when there is room
for their bytes, and otherwise as the longest beginning of whole characters that fits, and an
ellipsis. Abridging the bytes of any text comes to the same: the search for the cut never goes below
zero, and ends at most three bytes below the room. -/
theorem long_texts_are_cut_between_characters (s : Statement) (dialect : Dialect) (room : Nat) :
    IsAbridged room s.explain (s.explainWithin (some room)) ∧
      (∃ shown, IsAbridged room s.sql shown ∧
        Rendering.event ⟨dialect, some room⟩ s =
          .rendered dialect.name s.params.length shown) ∧
      ∀ t : List Char,
        abridgedBytes? room (encoded t) = some (encoded (abridged room t)) ∧
          (room < size t → ∃ stop, lastBoundary? (encoded t) room = some stop ∧ stop ≤ room ∧
            room ≤ stop + 3) := by
  refine ⟨isAbridged_abridged room s.explain, ⟨_, isAbridged_abridged room s.sql, rfl⟩, fun t => ?_⟩
  refine ⟨abridgedBytes?_encoded room t, fun h => ?_⟩
  obtain ⟨found, near⟩ := lastBoundary?_encoded h
  exact ⟨_, found, size_fitting_le room t, near⟩

/-- The room ends within the second character, which takes three bytes. -/
theorem long_texts_are_cut_between_characters_within_one :
    let s : Statement := ⟨"h€!".toList, [], []⟩
    3 < size s.sql ∧ s.explainWithin (some 3) = "h...".toList ∧
      IsAbridged 3 s.explain (s.explainWithin (some 3)) ∧
      ∃ stop, lastBoundary? (encoded s.sql) 3 = some stop ∧ stop ≤ 3 ∧ 3 ≤ stop + 3 := by
  intro s
  have long : 3 < size s.sql := by decide
  obtain ⟨shown, -, bytes⟩ := long_texts_are_cut_between_characters s .mysql 3
  exact ⟨long, by decide, shown, (bytes s.sql).2 long⟩

end SqlClause
