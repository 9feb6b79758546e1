import Mathlib
import SqlClause.Text.Size

/-! # Texts as bytes

A character of the ASCII range is encoded by one byte, its code. Any other starts with a byte from
192 on and goes on with bytes from 128 up to 191. So a byte below 128 is always a character, and the
byte behind an offset tells whether a character starts there. -/

namespace SqlClause.Text

/-- The bytes of the text in UTF-8. -/
def encoded (cs : List Char) : List UInt8 := cs.flatMap String.utf8EncodeChar

/-- Whether the byte goes on with a character. -/
def isTrailing (b : UInt8) : Bool := 128 ≤ b && b < 192

/-- Whether no character is split where the bytes are cut at the offset. -/
def isBoundary (bytes : List UInt8) (offset : Nat) : Bool :=
  if offset = 0 then true
  else
    match bytes[offset]? with
    | some b => !isTrailing b
    | none => offset = bytes.length

/-! ## One character -/

theorem toNat_ofNat_byte {n : Nat} (h : n < 256) : (UInt8.ofNat n).toNat = n := by
  rw [UInt8.toNat_ofNat', Nat.mod_eq_of_lt h]

theorem utf8EncodeChar_of_lt {c : Char} (h : c.toNat < 128) :
    String.utf8EncodeChar c = [UInt8.ofNat c.toNat] :=
  if_pos (Nat.le_of_lt_succ h)

theorem utf8EncodeChar_of_le {c : Char} (h : 128 ≤ c.toNat) :
    ∃ b bs, String.utf8EncodeChar c = b :: bs ∧ 192 ≤ b.toNat ∧
      ∀ x ∈ bs, 128 ≤ x.toNat ∧ x.toNat < 192 := by
  have lead {n : Nat} (low : 192 ≤ n) (high : n < 256) : 192 ≤ (UInt8.ofNat n).toNat := by
    rwa [toNat_ofNat_byte high]
  have trailing (ns : List Nat) : ∀ x ∈ ns.map fun n => UInt8.ofNat (n % 64 + 128),
      128 ≤ x.toNat ∧ x.toNat < 192 := by
    intro x hx
    obtain ⟨n, -, rfl⟩ := List.mem_map.mp hx
    rw [toNat_ofNat_byte (by omega)]
    omega
  have wide : ¬c.val.toNat ≤ 127 := Nat.not_le.mpr h
  unfold String.utf8EncodeChar
  simp only [if_neg wide]
  split
  · exact ⟨_, _, rfl, lead (by omega) (by omega), trailing [c.val.toNat]⟩
  · split
    · exact ⟨_, _, rfl, lead (by omega) (by omega), trailing [c.val.toNat / 64, c.val.toNat]⟩
    · exact ⟨_, _, rfl, lead (by omega) (by omega),
        trailing [c.val.toNat / 4096, c.val.toNat / 64, c.val.toNat]⟩

/-- The first byte of a character is no trailing one, and the others are. -/
theorem exists_utf8EncodeChar_eq_cons (c : Char) :
    ∃ b bs, String.utf8EncodeChar c = b :: bs ∧ isTrailing b = false ∧
      ∀ x ∈ bs, isTrailing x = true := by
  simp only [isTrailing, Bool.and_eq_true, Bool.and_eq_false_iff, decide_eq_true_eq,
    decide_eq_false_iff_not, UInt8.le_iff_toNat_le, UInt8.lt_iff_toNat_lt]
  rcases Nat.lt_or_ge c.toNat 128 with narrow | wide
  · refine ⟨_, [], utf8EncodeChar_of_lt narrow, .inl ?_, by simp⟩
    rw [toNat_ofNat_byte (by omega)]
    exact Nat.not_le.mpr narrow
  · obtain ⟨b, bs, encoding, lead, trailing⟩ := utf8EncodeChar_of_le wide
    exact ⟨b, bs, encoding, .inr (Nat.not_lt.mpr lead), trailing⟩

/-- A byte below 128 is the code of its character. -/
theorem toNat_eq_of_mem_utf8EncodeChar {c : Char} {b : UInt8} (h : b ∈ String.utf8EncodeChar c)
    (low : b.toNat < 128) : c.toNat = b.toNat := by
  rcases Nat.lt_or_ge c.toNat 128 with narrow | wide
  · rw [utf8EncodeChar_of_lt narrow, List.mem_singleton] at h
    rw [h, toNat_ofNat_byte (by omega)]
  · obtain ⟨lead, trailing, encoding, hlead, htrailing⟩ := utf8EncodeChar_of_le wide
    rw [encoding] at h
    rcases List.mem_cons.mp h with rfl | h
    · omega
    · have := htrailing b h
      omega

/-! ## Texts -/

@[simp] theorem encoded_nil : encoded [] = [] := rfl

theorem encoded_cons (c : Char) (cs : List Char) :
    encoded (c :: cs) = String.utf8EncodeChar c ++ encoded cs :=
  List.flatMap_cons

theorem encoded_append (xs ys : List Char) : encoded (xs ++ ys) = encoded xs ++ encoded ys :=
  List.flatMap_append

theorem encoded_cons_of_lt {c : Char} (h : c.toNat < 128) (cs : List Char) :
    encoded (c :: cs) = UInt8.ofNat c.toNat :: encoded cs := by
  rw [encoded_cons, utf8EncodeChar_of_lt h, List.singleton_append]

@[simp] theorem length_encoded (cs : List Char) : (encoded cs).length = size cs := by
  induction cs with
  | nil => rfl
  | cons c cs ih => rw [encoded_cons, List.length_append, String.length_utf8EncodeChar, ih, size]

/-- Between two texts no character is split. -/
theorem isBoundary_size (xs ys : List Char) : isBoundary (encoded (xs ++ ys)) (size xs) = true := by
  have behind : (encoded (xs ++ ys))[size xs]? = (encoded ys)[0]? := by
    rw [encoded_append, List.getElem?_append_right (by rw [length_encoded]), length_encoded,
      Nat.sub_self]
  rw [isBoundary, behind]
  split
  · rfl
  · cases ys with
    | nil => simp
    | cons c ys =>
      obtain ⟨b, bs, encoding, lead, -⟩ := exists_utf8EncodeChar_eq_cons c
      rw [encoded_cons, encoding]
      simp [lead]

/-- Within a character there is no boundary. -/
theorem isBoundary_within {c : Char} {k : Nat} (xs ys : List Char) (positive : 0 < k)
    (h : k < c.utf8Size) : isBoundary (encoded (xs ++ c :: ys)) (size xs + k) = false := by
  obtain ⟨b, bs, encoding, -, trailing⟩ := exists_utf8EncodeChar_eq_cons c
  have length : c.utf8Size = bs.length + 1 := by
    rw [← String.length_utf8EncodeChar, encoding, List.length_cons]
  obtain ⟨j, rfl⟩ := Nat.exists_eq_succ_of_ne_zero positive.ne'
  have inside : j < bs.length := by omega
  have behind : (encoded (xs ++ c :: ys))[size xs + (j + 1)]? = some bs[j] := by
    rw [encoded_append, List.getElem?_append_right (by rw [length_encoded]; omega), length_encoded,
      Nat.add_sub_cancel_left, encoded_cons, encoding, List.cons_append, List.getElem?_cons_succ,
      List.getElem?_append_left inside, List.getElem?_eq_getElem inside]
  rw [isBoundary, if_neg (by omega), behind]
  simp [trailing bs[j] (List.getElem_mem inside)]

end SqlClause.Text
