import Mathlib
import SqlClause.Value.Wire

/-! # Integers on the wire

An integer is narrowed to the width of its column's type and appended in two's complement, or it is
out of range and nothing is appended. Only the integer types narrow it: every other column is sent
eight bytes, among them a column of single precision, whose values take four. -/

namespace SqlClause

/-- The number that an integer value has. -/
def Value.number? : Value → Option Int
  | .int n => some n.toInt
  | .uint n => some n.toNat
  | _ => none

namespace WireType

/-- The numeric types whose values all take as many bytes, with that number. -/
def width? : WireType → Option Nat
  | .int2 => some 2
  | .int4 => some 4
  | .int8 => some 8
  | .float4 => some 4
  | .float8 => some 8
  | _ => none

/-- The least and the greatest number of an integer type. The other types take what `int8` takes. -/
def bounds : WireType → Int × Int
  | .int2 => (-32768, 32767)
  | .int4 => (-2147483648, 2147483647)
  | _ => (-9223372036854775808, 9223372036854775807)

end WireType

namespace Wire

/-- The number that the bytes spell, the highest of them first. -/
def unsigned (bytes : List UInt8) : Nat := bytes.foldl (fun n b => 256 * n + b.toNat) 0

/-- The number that the bytes spell in two's complement: those whose highest bit is set are below
zero. -/
def signed (bytes : List UInt8) : Int :=
  if 2 * unsigned bytes < 256 ^ bytes.length then unsigned bytes
  else unsigned bytes - (256 ^ bytes.length : Nat)

/-- What appends machine integers to a buffer: each in two's complement of its own width, whatever
the type of the column. -/
structure Writers where
  int16 : WireType → Int16 → List UInt8 → List UInt8
  int32 : WireType → Int32 → List UInt8 → List UInt8
  int64 : WireType → Int64 → List UInt8 → List UInt8
  int16_eq : ∀ type n buffer, int16 type n buffer = buffer ++ twosComplement 2 n.toInt
  int32_eq : ∀ type n buffer, int32 type n buffer = buffer ++ twosComplement 4 n.toInt
  int64_eq : ∀ type n buffer, int64 type n buffer = buffer ++ twosComplement 8 n.toInt

/-- The number as a machine integer, unless it is out of range. -/
def narrowed? {α : Type} (least greatest : Int) (make : Int → α) (n : Int) : Option α :=
  if least ≤ n ∧ n ≤ greatest then some (make n) else none

namespace Writers

variable (w : Writers)

/-- The buffer after an integer, narrowed first for the two smaller types. -/
def append? (type : WireType) (n : Int64) (buffer : List UInt8) : Option (List UInt8) :=
  if type = .int2 then
    (narrowed? Int16.minValue.toInt Int16.maxValue.toInt Int16.ofInt n.toInt).map
      fun m => w.int16 type m buffer
  else if type = .int4 then
    (narrowed? Int32.minValue.toInt Int32.maxValue.toInt Int32.ofInt n.toInt).map
      fun m => w.int32 type m buffer
  else some (w.int64 type n buffer)

/-- The buffer after an integer value. An unsigned number has to fit in sixty-four bits with a sign,
and values of other kinds are not for these writers. -/
def appendValue? (type : WireType) (buffer : List UInt8) : Value → Option (List UInt8)
  | .int n => w.append? type n buffer
  | .uint n =>
    (narrowed? Int64.minValue.toInt Int64.maxValue.toInt Int64.ofInt n.toNat).bind
      fun m => w.append? type m buffer
  | _ => none

/-- Appends an integer value, or leaves the buffer as it is. -/
def send (type : WireType) (v : Value) (buffer : List UInt8) : Sending × List UInt8 :=
  match w.appendValue? type buffer v with
  | some filled => (.sent, filled)
  | none => (.outOfRange, buffer)

end Writers

/-! ## Two's complement is read back -/

theorem unsigned_append (bytes : List UInt8) (b : UInt8) :
    unsigned (bytes ++ [b]) = 256 * unsigned bytes + b.toNat :=
  List.foldl_append

theorem unsigned_bigEndian (width n : Nat) :
    unsigned (Text.bigEndian width n) = n % 256 ^ width := by
  induction width generalizing n with
  | zero => rw [pow_zero, Nat.mod_one]; rfl
  | succ width ih =>
    have lowest : (UInt8.ofNat n).toNat = n % 256 := UInt8.toNat_ofNat'
    rw [Text.bigEndian, unsigned_append, ih, lowest, pow_succ' 256 width, Nat.mod_mul, Nat.add_comm]

@[simp] theorem length_twosComplement (width : Nat) (n : Int) :
    (twosComplement width n).length = width :=
  Text.length_bigEndian _ _

theorem unsigned_twosComplement (width : Nat) (n : Int) :
    (unsigned (twosComplement width n) : Int) = n % (256 ^ width : Nat) := by
  have base : Nat.pow 2 (8 * width) = 256 ^ width := pow_mul 2 8 width
  have positive : 0 < (256 ^ width : Nat) := Nat.pow_pos (by decide)
  have below := Int.emod_lt_of_pos n (Int.natCast_pos.mpr positive)
  have nonnegative := Int.emod_nonneg n (Int.natCast_pos.mpr positive).ne'
  rw [twosComplement, unsigned_bigEndian, base, Nat.mod_eq_of_lt (by omega)]
  exact Int.toNat_of_nonneg nonnegative

theorem signed_twosComplement {width : Nat} {n : Int} (positive : 0 < width)
    (h : fitsIn width n = true) : signed (twosComplement width n) = n := by
  -- half of the numbers that the bytes can spell stand for those below zero
  have halves : 256 ^ width = 2 * Nat.pow 2 (8 * width - 1) := by
    calc 256 ^ width
        = 2 ^ (8 * width) := (pow_mul 2 8 width).symm
      _ = 2 ^ (8 * width - 1 + 1) := by rw [Nat.sub_add_cancel (by omega)]
      _ = 2 * Nat.pow 2 (8 * width - 1) := pow_succ' 2 _
  obtain ⟨below, above⟩ := of_decide_eq_true h
  have spelled := unsigned_twosComplement width n
  rw [signed, length_twosComplement]
  generalize 256 ^ width = total at *
  generalize Nat.pow 2 (8 * width - 1) = half at *
  rcases lt_or_ge n 0 with negative | nonnegative
  · rw [← Int.add_emod_right, Int.emod_eq_of_lt (by omega) (by omega)] at spelled
    rw [if_neg (by omega)]
    omega
  · rw [Int.emod_eq_of_lt nonnegative (by omega)] at spelled
    rw [if_pos (by omega)]
    exact spelled

/-! ## What is sent -/

theorem integerWidth_pos (type : WireType) : 0 < integerWidth type := by
  cases type <;> decide

theorem fitsIn_integerWidth_iff (type : WireType) (n : Int) :
    fitsIn (integerWidth type) n = true ↔ type.bounds.1 ≤ n ∧ n ≤ type.bounds.2 := by
  have widths : integerWidth type = 2 ∧ type.bounds = (-32768, 32767) ∨
      integerWidth type = 4 ∧ type.bounds = (-2147483648, 2147483647) ∨
      integerWidth type = 8 ∧ type.bounds = (-9223372036854775808, 9223372036854775807) := by
    cases type <;> decide
  rcases widths with ⟨hw, hb⟩ | ⟨hw, hb⟩ | ⟨hw, hb⟩ <;> rw [hw, hb, fitsIn, decide_eq_true_iff] <;>
    norm_num <;> omega

variable {v : Value} {n : Int} {type : WireType} {buffer : List UInt8}

theorem integer_of_gt (type : WireType) (h : 9223372036854775807 < n) : integer type n = none := by
  have greatest : type.bounds.2 ≤ 9223372036854775807 := by cases type <;> decide
  refine if_neg ?_
  rw [fitsIn_integerWidth_iff]
  omega

theorem bytes_of_number? (h : v.number? = some n) (type : WireType) :
    bytes type v = integer type n := by
  cases v with
  | int k =>
    obtain rfl := Option.some.inj h
    rfl
  | uint k =>
    obtain rfl := Option.some.inj h
    rw [bytes]
    split
    next below => rfl
    next above =>
      have size : UInt64.size / 2 = 9223372036854775808 := rfl
      exact (integer_of_gt type (by omega)).symm
  | _ => cases h

theorem send_of_number? (h : v.number? = some n) (type : WireType) (buffer : List UInt8) :
    v.send type buffer =
      if fitsIn (integerWidth type) n then
        (.sent, buffer ++ twosComplement (integerWidth type) n)
      else (.outOfRange, buffer) := by
  have scalar : v.isNull = false := by
    cases v with
    | null => cases h
    | _ => rfl
  rw [Value.send, scalar, if_neg Bool.false_ne_true, bytes_of_number? h, integer]
  cases fitsIn (integerWidth type) n <;> rfl

/-! ## The writers send the same -/

/-- A narrowed number is appended in the width into which it fits. -/
theorem map_narrowed? {α : Type} {least greatest : Int} {make : Int → α} {append : α → List UInt8}
    (bounds : type.bounds = (least, greatest))
    (h : ∀ m, least ≤ m → m ≤ greatest →
      append (make m) = buffer ++ twosComplement (integerWidth type) m) (n : Int) :
    (narrowed? least greatest make n).map append = (integer type n).map (buffer ++ ·) := by
  have fits := fitsIn_integerWidth_iff type n
  rw [bounds] at fits
  rw [narrowed?, integer]
  by_cases within : least ≤ n ∧ n ≤ greatest
  · rw [if_pos within, if_pos (fits.mpr within)]
    exact congrArg some (h n within.1 within.2)
  · rw [if_neg within, if_neg fun fitting => within (fits.mp fitting)]
    rfl

namespace Writers

variable (w : Writers)

theorem append?_eq (type : WireType) (k : Int64) (buffer : List UInt8) :
    w.append? type k buffer = (integer type k.toInt).map (buffer ++ ·) := by
  rw [append?]
  split
  next small =>
    subst small
    have bounds : WireType.int2.bounds = (Int16.minValue.toInt, Int16.maxValue.toInt) := rfl
    refine map_narrowed? bounds (fun m low high => ?_) k.toInt
    rw [w.int16_eq, Int16.toInt_ofInt_of_le low (Int.lt_add_one_of_le high)]
    rfl
  next notSmall =>
    split
    next medium =>
      subst medium
      have bounds : WireType.int4.bounds = (Int32.minValue.toInt, Int32.maxValue.toInt) := rfl
      refine map_narrowed? bounds (fun m low high => ?_) k.toInt
      rw [w.int32_eq, Int32.toInt_ofInt_of_le low (Int.lt_add_one_of_le high)]
      rfl
    next notMedium =>
      have width : integerWidth type = 8 := by
        cases type <;> first | rfl | contradiction
      have fits : fitsIn 8 k.toInt = true :=
        (fitsIn_integerWidth_iff .int8 k.toInt).mpr
          ⟨k.le_toInt, Int.le_of_lt_add_one k.toInt_lt⟩
      rw [integer, width, if_pos fits, w.int64_eq]
      rfl

theorem appendValue?_eq (h : v.number? = some n) :
    w.appendValue? type buffer v = (integer type n).map (buffer ++ ·) := by
  cases v with
  | int k =>
    obtain rfl := Option.some.inj h
    exact w.append?_eq type k buffer
  | uint k =>
    obtain rfl := Option.some.inj h
    have least : Int64.minValue.toInt = -9223372036854775808 := rfl
    have greatest : Int64.maxValue.toInt = 9223372036854775807 := rfl
    rw [appendValue?, narrowed?, least, greatest]
    split
    next within =>
      have kept : (Int64.ofInt k.toNat).toInt = k.toNat :=
        Int64.toInt_ofInt_of_le (by omega) (by omega)
      rw [Option.bind_some, append?_eq, kept]
    next above =>
      rw [integer_of_gt type (by omega)]
      rfl
  | _ => cases h

theorem send_eq (h : v.number? = some n) (type : WireType) (buffer : List UInt8) :
    w.send type v buffer = v.send type buffer := by
  rw [send_of_number? h, send, appendValue?_eq w h, integer]
  cases fitsIn (integerWidth type) n <;> rfl

end Writers

end Wire

open Wire

/-- An integer value is appended in full, or the buffer stays as it is. The bytes that are appended
spell it in two's complement, and they are as many as the values of the type take, but for columns of
single precision, which are sent eight. It is appended if and only if it is within the bounds of the
type. Any writers of machine integers, after the narrowing, send the same. -/
theorem integers_are_sent_in_full {v : Value} {n : Int} (h : v.number? = some n) (type : WireType)
    (buffer : List UInt8) :
    (v.send type buffer = (.outOfRange, buffer) ∨
        ∃ body, v.send type buffer = (.sent, buffer ++ body) ∧ signed body = n ∧
          ∀ width, type.width? = some width →
            body.length = (if type = .float4 then 8 else width)) ∧
      ((v.send type buffer).1 = .sent ↔ type.bounds.1 ≤ n ∧ n ≤ type.bounds.2) ∧
      ∀ w : Writers, w.send type v buffer = v.send type buffer := by
  have widths : ∀ width, type.width? = some width →
      integerWidth type = (if type = .float4 then 8 else width) := by
    intro width hwidth
    cases type <;> cases hwidth <;> rfl
  refine ⟨?_, ?_, fun w => w.send_eq h type buffer⟩
  · rw [send_of_number? h]
    by_cases fits : fitsIn (integerWidth type) n = true
    · refine .inr ⟨twosComplement (integerWidth type) n, if_pos fits,
        signed_twosComplement (integerWidth_pos type) fits, fun width hwidth => ?_⟩
      rw [length_twosComplement, widths width hwidth]
    · exact .inl (if_neg fits)
  · rw [send_of_number? h, ← fitsIn_integerWidth_iff]
    cases fitsIn (integerWidth type) n <;> simp

/-- A number that an `int2` does not take and an `int4` does. -/
theorem integers_are_sent_in_full_unsigned :
    let v : Value := .uint 40000
    let w : Writers :=
      { int16 := fun _ n buffer => buffer ++ twosComplement 2 n.toInt
        int32 := fun _ n buffer => buffer ++ twosComplement 4 n.toInt
        int64 := fun _ n buffer => buffer ++ twosComplement 8 n.toInt
        int16_eq := fun _ _ _ => rfl
        int32_eq := fun _ _ _ => rfl
        int64_eq := fun _ _ _ => rfl }
    v.number? = some 40000 ∧ (v.send .int2 [7]).1 ≠ .sent ∧ w.send .int2 v [7] = v.send .int2 [7] ∧
      ∃ body, v.send .int4 [7] = (.sent, [7] ++ body) ∧ signed body = 40000 ∧ body.length = 4 := by
  intro v w
  have number : v.number? = some 40000 := by decide
  obtain ⟨-, range, writers⟩ := integers_are_sent_in_full number .int2 [7]
  obtain ⟨refused | ⟨body, sent, spelled, width⟩, -, -⟩ :=
    integers_are_sent_in_full number .int4 [7]
  · exact absurd refused (by decide)
  · exact ⟨number, fun sent => absurd (range.mp sent) (by decide), writers w, body, sent, spelled,
      width 4 rfl⟩

/-- The number one, for a column whose values take four bytes. -/
theorem integer_overfills_single_precision :
    let answer := (Value.int 1).send .float4 []
    Value.number? (.int 1) = some 1 ∧ WireType.float4.width? = some 4 ∧
      answer = (.sent, [0, 0, 0, 0, 0, 0, 0, 1]) ∧ answer.2.length ≠ 4 := by
  decide

end SqlClause
