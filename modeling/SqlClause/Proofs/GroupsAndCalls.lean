import Mathlib
import SqlClause.Proofs.BracketPairs
import SqlClause.Proofs.EncodedText

/-! # Groups and calls are recognised exactly

A text is a group if and only if it is a text with paired brackets in one more pair, and a call if a
name stands before such a group. A scan that counts the open brackets among the bytes says the same,
and never counts below zero. -/

namespace SqlClause

theorem Text.Balanced.of_not_mem {cs : List Char} (hopen : '(' ∉ cs) (hclose : ')' ∉ cs) :
    Balanced cs := by
  refine ⟨fun p hp => ?_, by rw [List.count_eq_zero.mpr hopen, List.count_eq_zero.mpr hclose]⟩
  rw [List.count_eq_zero.mpr fun mem => hclose (hp.subset mem)]
  exact Nat.zero_le _

namespace Atom

open Text (Balanced encoded size)

/-- Whether a character may stand in the name of a call. -/
def isNameLetter (c : Char) : Bool := c.isUpper || c = '_'

/-! ## Scans over bytes -/

/-- Whether the brackets that are open at `place` are closed by the bytes from there on, the
outermost by the byte at `last` and not before. There is no answer if the number of open brackets
would fall below zero. -/
def scan? (last : Nat) (depth place : Nat) : List UInt8 → Option Bool
  | [] => some (depth = 0)
  | b :: bs =>
    if b = 40 then scan? last (depth + 1) (place + 1) bs
    else if b = 41 then
      if depth = 0 then some false
      else
        depth.ppred.bind fun outer =>
          if outer = 0 ∧ place ≠ last then some false else scan? last outer (place + 1) bs
    else scan? last depth (place + 1) bs

def isGroupBytes? (bytes : List UInt8) : Option Bool :=
  if bytes.length < 2 ∨ bytes.head? ≠ some 40 ∨ bytes.getLast? ≠ some 41 then some false
  else scan? (bytes.length - 1) 0 0 bytes

def isNameByte (b : UInt8) : Bool := 65 ≤ b && b ≤ 90 || b = 95

/-- There is no answer if the text after the name would start within a character. -/
def isCallBytes? (bytes : List UInt8) : Option Bool :=
  let length := (bytes.takeWhile isNameByte).length
  if length = 0 then some false
  else if Text.isBoundary bytes length then
    let rest := bytes.drop length
    if rest.head? = some 40 then isGroupBytes? rest else some false
  else none

variable {n : Nat} {cs ds name : List Char}

/-! ## Groups -/

theorem closesAtEnd_iff :
    closesAtEnd n cs = true ↔ ∃ t, Text.depth n t = some 0 ∧ cs = t ++ [')'] := by
  constructor
  · intro h
    fun_induction closesAtEnd n cs with
    | case1 => cases h
    | case2 n cs ih =>
      obtain ⟨t, ht, rfl⟩ := ih h
      exact ⟨'(' :: t, ht, rfl⟩
    | case3 cs =>
      obtain rfl := List.isEmpty_iff.mp h
      exact ⟨[], rfl, rfl⟩
    | case4 n cs ih =>
      obtain ⟨t, ht, rfl⟩ := ih h
      exact ⟨')' :: t, ht, rfl⟩
    | case5 n c cs hopen hzero hsucc ih =>
      obtain ⟨t, ht, rfl⟩ := ih h
      refine ⟨c :: t, ?_, rfl⟩
      rw [Text.depth, ht]
      · exact hopen
      · exact hzero
      · exact hsucc
  · rintro ⟨t, ht, rfl⟩
    rw [closesAtEnd_append ht]
    rfl

theorem isGroup_iff : isGroup cs = true ↔ ∃ t, Balanced t ∧ cs = '(' :: (t ++ [')']) := by
  constructor
  · intro h
    cases cs with
    | nil => cases h
    | cons c cs =>
      unfold isGroup at h
      split at h
      next rest heq =>
        obtain ⟨rfl, rfl⟩ := List.cons.inj heq
        obtain ⟨t, ht, rfl⟩ := closesAtEnd_iff.mp h
        exact ⟨t, .of_depth ht, rfl⟩
      next => cases h
  · rintro ⟨t, ht, rfl⟩
    exact isGroup_bracketed ht

theorem isGroup_append_of_isGroup (h : isGroup cs = true) (hds : ds ≠ []) :
    isGroup (cs ++ ds) = false := by
  obtain ⟨t, ht, rfl⟩ := isGroup_iff.mp h
  -- the bracket before `ds` closes the first one
  rw [List.cons_append, List.append_assoc, isGroup, closesAtEnd_append (ht.depth_eq 0),
    List.singleton_append, closesAtEnd]
  exact Bool.eq_false_iff.mpr fun empty => hds (List.isEmpty_iff.mp empty)

theorem balanced_of_isGroup (h : isGroup cs = true) : Balanced cs := by
  obtain ⟨t, ht, rfl⟩ := isGroup_iff.mp h
  exact ht.bracketed

/-! ## Calls -/

theorem isNameLetter_iff {c : Char} : isNameLetter c = true ↔ 'A' ≤ c ∧ c ≤ 'Z' ∨ c = '_' := by
  rw [isNameLetter, Bool.or_eq_true, decide_eq_true_eq, Char.isUpper, decide_eq_true_eq]
  rfl

theorem isCall_eq (cs : List Char) : isCall cs =
    (!(cs.takeWhile isNameLetter).isEmpty && isGroup (cs.dropWhile isNameLetter)) := rfl

theorem isCall_append_iff (hname : ∀ c ∈ name, isNameLetter c = true) (ds : List Char) :
    isCall (name ++ '(' :: ds) = true ↔ name ≠ [] ∧ isGroup ('(' :: ds) = true := by
  -- the bracket ends the name
  have taken : (name ++ '(' :: ds).takeWhile isNameLetter = name := by
    rw [List.takeWhile_append_of_pos hname, List.takeWhile_cons_of_neg (by decide),
      List.append_nil]
  have dropped : (name ++ '(' :: ds).dropWhile isNameLetter = '(' :: ds := by
    rw [List.dropWhile_append_of_pos hname, List.dropWhile_cons_of_neg (by decide)]
  rw [isCall_eq, taken, dropped, Bool.and_eq_true, Bool.not_eq_true', List.isEmpty_eq_false_iff]

theorem isCall_iff : isCall cs = true ↔
    ∃ name t, name ≠ [] ∧ (∀ c ∈ name, isNameLetter c = true) ∧ Balanced t ∧
      cs = name ++ '(' :: (t ++ [')']) := by
  constructor
  · intro h
    rw [isCall_eq, Bool.and_eq_true, Bool.not_eq_true', List.isEmpty_eq_false_iff] at h
    obtain ⟨named, group⟩ := h
    obtain ⟨t, ht, hrest⟩ := isGroup_iff.mp group
    refine ⟨cs.takeWhile isNameLetter, t, named, fun c hc => List.mem_takeWhile_imp hc, ht, ?_⟩
    rw [← hrest]
    exact List.takeWhile_append_dropWhile.symm
  · rintro ⟨name, t, named, hname, ht, rfl⟩
    exact (isCall_append_iff hname _).mpr ⟨named, isGroup_bracketed ht⟩

theorem isCall_append_of_isCall (h : isCall cs = true) (hds : ds ≠ []) :
    isCall (cs ++ ds) = false := by
  obtain ⟨name, t, -, hname, ht, rfl⟩ := isCall_iff.mp h
  rw [List.append_assoc, List.cons_append, Bool.eq_false_iff, ne_eq, isCall_append_iff hname,
    ← List.cons_append, isGroup_append_of_isGroup (isGroup_bracketed ht) hds]
  simp

theorem balanced_of_isCall (h : isCall cs = true) : Balanced cs := by
  obtain ⟨name, t, -, hname, ht, rfl⟩ := isCall_iff.mp h
  have absent {c : Char} (hc : isNameLetter c = false) : c ∉ name := fun mem =>
    Bool.false_ne_true (hc.symm.trans (hname c mem))
  exact (Balanced.of_not_mem (absent rfl) (absent rfl)).append ht.bracketed

/-- No name stands before a group. -/
theorem isCall_append_of_isGroup (h : isGroup cs = true) (ds : List Char) :
    isCall (cs ++ ds) = false := by
  obtain ⟨t, -, rfl⟩ := isGroup_iff.mp h
  rw [List.cons_append, Bool.eq_false_iff, ne_eq, ← List.nil_append ('(' :: _),
    isCall_append_iff (by simp)]
  simp

/-- The name of a call stands before its bracket. -/
theorem isGroup_append_of_isCall (h : isCall cs = true) (ds : List Char) :
    isGroup (cs ++ ds) = false := by
  obtain ⟨name, t, named, hname, -, rfl⟩ := isCall_iff.mp h
  obtain ⟨c, letters, rfl⟩ := List.exists_cons_of_ne_nil named
  rw [Bool.eq_false_iff]
  intro group
  obtain ⟨u, -, hu⟩ := isGroup_iff.mp group
  obtain rfl : c = '(' := (List.cons.inj hu).1
  exact absurd (hname '(' List.mem_cons_self) (by decide)

/-! ## The scans see the same -/

theorem scan?_append_of_not_bracket {bs : List UInt8} (h : ∀ b ∈ bs, b ≠ 40 ∧ b ≠ 41)
    (last depth place : Nat) (rest : List UInt8) :
    scan? last depth place (bs ++ rest) = scan? last depth (place + bs.length) rest := by
  induction bs generalizing place with
  | nil => rfl
  | cons b bs ih =>
    obtain ⟨⟨hopen, hclose⟩, hbs⟩ := List.forall_mem_cons.mp h
    rw [List.cons_append, scan?, if_neg hopen, if_neg hclose, ih hbs, List.length_cons,
      Nat.add_right_comm, Nat.add_assoc]

theorem not_bracket_of_mem {c : Char} (hopen : c ≠ '(') (hclose : c ≠ ')') :
    ∀ b ∈ String.utf8EncodeChar c, b ≠ 40 ∧ b ≠ 41 := by
  intro b hb
  constructor
  · rintro rfl
    exact hopen (Char.toNat_inj.mp (Text.toNat_eq_of_mem_utf8EncodeChar hb (by decide)))
  · rintro rfl
    exact hclose (Char.toNat_inj.mp (Text.toNat_eq_of_mem_utf8EncodeChar hb (by decide)))

theorem encoded_open (cs : List Char) : encoded ('(' :: cs) = 40 :: encoded cs :=
  Text.encoded_cons_of_lt (by decide) cs

theorem encoded_close (cs : List Char) : encoded (')' :: cs) = 41 :: encoded cs :=
  Text.encoded_cons_of_lt (by decide) cs

theorem size_open (cs : List Char) : size ('(' :: cs) = size cs + 1 := Nat.add_comm 1 _

theorem size_close (cs : List Char) : size (')' :: cs) = size cs + 1 := Nat.add_comm 1 _

/-- With one bracket more open than the recogniser counts, the scan finds what it does. -/
theorem scan?_encoded {last place : Nat} (h : last + 1 = place + size cs) :
    scan? last (n + 1) place (encoded cs) = some (closesAtEnd n cs) := by
  fun_induction closesAtEnd n cs generalizing place with
  | case1 n => rfl
  | case2 n cs ih =>
    rw [size_open] at h
    rw [encoded_open, scan?, if_pos rfl]
    exact ih (by omega)
  | case3 cs =>
    rw [size_close] at h
    rw [encoded_close, scan?, if_neg (by decide), if_pos rfl, if_neg (Nat.succ_ne_zero 0),
      Nat.ppred_succ, Option.bind_some]
    cases cs with
    | nil =>
      obtain rfl : place = last := by
        rw [size] at h
        omega
      rw [if_neg (by simp)]
      rfl
    | cons c cs =>
      have early : place ≠ last := by
        have := c.utf8Size_pos
        rw [size] at h
        omega
      rw [if_pos ⟨rfl, early⟩]
      rfl
  | case4 n cs ih =>
    rw [size_close] at h
    rw [encoded_close, scan?, if_neg (by decide), if_pos rfl, if_neg (Nat.succ_ne_zero _),
      Nat.ppred_succ, Option.bind_some, if_neg (by simp)]
    exact ih (by omega)
  | case5 n c cs hopen hzero hsucc ih =>
    have hclose : c ≠ ')' := by
      cases n with
      | zero => exact hzero rfl
      | succ n => exact hsucc n rfl
    rw [size] at h
    rw [Text.encoded_cons, scan?_append_of_not_bracket (not_bracket_of_mem hopen hclose),
      String.length_utf8EncodeChar]
    exact ih (by omega)

theorem encoded_bracketed (t : List Char) :
    encoded ('(' :: (t ++ [')'])) = 40 :: (encoded t ++ [41]) := by
  rw [encoded_open, Text.encoded_append, encoded_close, Text.encoded_nil]

theorem exists_eq_cons_of_head?_encoded (h : (encoded cs).head? = some 40) :
    ∃ rest, cs = '(' :: rest := by
  cases cs with
  | nil => cases h
  | cons c rest =>
    obtain ⟨b, bs, encoding, -⟩ := Text.exists_utf8EncodeChar_eq_cons c
    rw [Text.encoded_cons, encoding] at h
    obtain rfl : b = 40 := Option.some.inj h
    have first : (40 : UInt8) ∈ String.utf8EncodeChar c := encoding ▸ List.mem_cons_self
    have code := Text.toNat_eq_of_mem_utf8EncodeChar first (by decide)
    exact ⟨rest, congrArg (· :: rest) (Char.toNat_inj.mp code)⟩

theorem isGroupBytes?_encoded (cs : List Char) :
    isGroupBytes? (encoded cs) = some (isGroup cs) := by
  rw [isGroupBytes?]
  split
  next outer =>
    cases group : isGroup cs with
    | false => rfl
    | true =>
      obtain ⟨t, -, rfl⟩ := isGroup_iff.mp group
      have closing : (40 :: (encoded t ++ [41])).getLast? = some 41 := by
        rw [← List.cons_append]
        exact List.getLast?_concat
      rw [encoded_bracketed, closing] at outer
      simp at outer
  next outer =>
    simp only [not_or, not_not] at outer
    obtain ⟨rest, rfl⟩ := exists_eq_cons_of_head?_encoded outer.2.1
    rw [encoded_open, scan?, if_pos rfl]
    refine scan?_encoded ?_
    rw [List.length_cons, Text.length_encoded]
    omega

theorem isNameByte_ofNat {c : Char} (h : c.toNat < 128) :
    isNameByte (UInt8.ofNat c.toNat) = isNameLetter c := by
  have code : (UInt8.ofNat c.toNat).toNat = c.toNat := Text.toNat_ofNat_byte (by omega)
  have letter : isNameLetter c = true ↔ 65 ≤ c.toNat ∧ c.toNat ≤ 90 ∨ c.toNat = 95 := by
    rw [isNameLetter_iff, ← Char.toNat_inj]
    rfl
  rw [Bool.eq_iff_iff, letter, isNameByte]
  simp only [Bool.or_eq_true, Bool.and_eq_true, decide_eq_true_eq, UInt8.le_iff_toNat_le,
    ← UInt8.toNat_inj, code]
  rfl

theorem isNameLetter_eq_false_of_le {c : Char} (h : 128 ≤ c.toNat) : isNameLetter c = false := by
  rw [Bool.eq_false_iff, ne_eq, isNameLetter_iff, ← Char.toNat_inj]
  rintro (⟨-, below⟩ | same)
  · have : c.toNat ≤ 90 := below
    omega
  · have : c.toNat = 95 := same
    omega

theorem takeWhile_encoded (cs : List Char) :
    (encoded cs).takeWhile isNameByte = encoded (cs.takeWhile isNameLetter) := by
  induction cs with
  | nil => rfl
  | cons c cs ih =>
    rcases Nat.lt_or_ge c.toNat 128 with narrow | wide
    · rw [Text.encoded_cons_of_lt narrow, List.takeWhile_cons, isNameByte_ofNat narrow, ih,
        List.takeWhile_cons]
      split
      · rw [Text.encoded_cons_of_lt narrow]
      · rfl
    · obtain ⟨b, bs, encoding, lead, -⟩ := Text.utf8EncodeChar_of_le wide
      have other : isNameByte b = false := by
        have high : ¬b ≤ 90 := by
          rw [UInt8.le_iff_toNat_le]
          exact Nat.not_le.mpr (Nat.lt_of_lt_of_le (by decide) lead)
        have far : b ≠ 95 := by
          rintro rfl
          exact absurd lead (by decide)
        simp [isNameByte, high, far]
      rw [List.takeWhile_cons, isNameLetter_eq_false_of_le wide, Text.encoded_cons, encoding,
        List.cons_append, List.takeWhile_cons, other]
      rfl

theorem isCallBytes?_encoded (cs : List Char) : isCallBytes? (encoded cs) = some (isCall cs) := by
  have parts : cs.takeWhile isNameLetter ++ cs.dropWhile isNameLetter = cs :=
    List.takeWhile_append_dropWhile
  rw [isCallBytes?, takeWhile_encoded, Text.length_encoded, isCall_eq]
  generalize cs.takeWhile isNameLetter = name at *
  generalize cs.dropWhile isNameLetter = rest at *
  subst parts
  have boundary := Text.isBoundary_size name rest
  have after : (encoded (name ++ rest)).drop (size name) = encoded rest := by
    rw [Text.encoded_append, ← Text.length_encoded, List.drop_left]
  simp only [after, boundary, if_true]
  cases name with
  | nil => rfl
  | cons c name =>
    have named : size (c :: name) ≠ 0 := by
      have := c.utf8Size_pos
      rw [size]
      omega
    rw [if_neg named]
    split
    next first => exact isGroupBytes?_encoded rest
    next other =>
      cases group : isGroup rest with
      | false => rfl
      | true =>
        obtain ⟨t, -, rfl⟩ := isGroup_iff.mp group
        exact absurd (by rw [encoded_open]; rfl) other

/-- A text is a group if and only if it is a text with paired brackets in one more pair, and a call
if and only if a name stands before such a group. With anything behind it, it is neither, and a text
with brackets that do not pair up is neither. The scans over the bytes always come to an answer, and
to the same one. -/
theorem groups_and_calls_are_exact (cs : List Char) :
    (isGroup cs = true ↔ ∃ t, Balanced t ∧ cs = '(' :: (t ++ [')'])) ∧
      (isCall cs = true ↔ ∃ name t, name ≠ [] ∧ (∀ c ∈ name, 'A' ≤ c ∧ c ≤ 'Z' ∨ c = '_') ∧
        Balanced t ∧ cs = name ++ '(' :: (t ++ [')'])) ∧
      (isGroup cs = true ∨ isCall cs = true → Balanced cs ∧
        ∀ ds, ds ≠ [] → isGroup (cs ++ ds) = false ∧ isCall (cs ++ ds) = false) ∧
      isGroupBytes? (encoded cs) = some (isGroup cs) ∧
      isCallBytes? (encoded cs) = some (isCall cs) := by
  refine ⟨isGroup_iff, ?_, ?_, isGroupBytes?_encoded cs, isCallBytes?_encoded cs⟩
  · simp only [isCall_iff, isNameLetter_iff]
  · rintro (group | call)
    · exact ⟨balanced_of_isGroup group, fun ds hds =>
        ⟨isGroup_append_of_isGroup group hds, isCall_append_of_isGroup group ds⟩⟩
    · exact ⟨balanced_of_isCall call, fun ds hds =>
        ⟨isGroup_append_of_isCall call ds, isCall_append_of_isCall call hds⟩⟩

/-- A call with a group in it, and the same with another group beside it. -/
theorem groups_and_calls_are_exact_side_by_side :
    let cs := "MAX((a) - é)".toList
    let ds := "(b)".toList
    isCall cs = true ∧ ds ≠ [] ∧ Balanced cs ∧ isGroup (cs ++ ds) = false ∧
      isCall (cs ++ ds) = false ∧ isCallBytes? (encoded cs) = some true := by
  intro cs ds
  have call : isCall cs = true := by decide +kernel
  have more : ds ≠ [] := by decide
  obtain ⟨-, -, apart, -, bytes⟩ := groups_and_calls_are_exact cs
  obtain ⟨paired, alone⟩ := apart (.inr call)
  exact ⟨call, more, paired, (alone ds more).1, (alone ds more).2, call ▸ bytes⟩

end Atom

end SqlClause
