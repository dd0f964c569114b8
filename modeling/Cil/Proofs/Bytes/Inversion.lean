import Cil.Proofs.Bytes.Encoding
import Cil.Proofs.Bytes.Reading
import Mathlib.Data.Int.ModEq

/-!
# Reading back what was written

A value is read from bytes exactly where its own bytes stand. So what is written is read back, what
is read could have been written, and reads of different types at one offset fit together: an
unsigned number is made of its two halves, and a signed one has the bits of the unsigned one.
-/

namespace Cil

namespace LittleEndian

theorem length_encode (width n : Nat) : (encode width n).length = width := by
  induction width generalizing n with
  | zero => rfl
  | succ width ih => rw [encode, List.length_cons, ih]

/-- As many bytes that stand for the same number are the same bytes. -/
theorem value_inj {a b : List UInt8} (length : a.length = b.length) (same : value a = value b) :
    a = b := by
  rw [← encode_value a, ← encode_value b, length, same]

theorem value_append (a b : List UInt8) : value (a ++ b) = value a + value b * 256 ^ a.length := by
  induction a with
  | nil => simp [value]
  | cons x a ih =>
    rw [List.cons_append, value, value, ih, List.length_cons, Nat.pow_succ', Nat.mul_add,
      Nat.add_assoc, Nat.mul_left_comm]

end LittleEndian

namespace ScalarType

theorem size_pos (type : ScalarType) : 0 < type.size := by
  cases type <;> decide

/-- The unsigned type that is half as wide as an unsigned type. -/
def half? : ScalarType → Option ScalarType
  | u16 => some u8
  | u32 => some u16
  | u64 => some u32
  | _ => none

/-- The unsigned type that is as wide as a signed type. -/
def unsigned? : ScalarType → Option ScalarType
  | i8 => some u8
  | i16 => some u16
  | i32 => some u32
  | i64 => some u64
  | _ => none

theorem size_of_half? {wide narrow : ScalarType} (half : wide.half? = some narrow) :
    wide.size = narrow.size + narrow.size := by
  cases wide <;> cases half <;> rfl

theorem size_of_unsigned? {signed unsigned : ScalarType}
    (same : signed.unsigned? = some unsigned) : unsigned.size = signed.size := by
  cases signed <;> cases same <;> rfl

end ScalarType

namespace Scalar

/-- The number that a value stands for; of a floating point value, that of its bits. -/
def number : Scalar → Int
  | u8 v => v.toNat
  | i8 v => v.toInt
  | u16 v => v.toNat
  | i16 v => v.toInt
  | u32 v => v.toNat
  | i32 v => v.toInt
  | u64 v => v.toNat
  | i64 v => v.toInt
  | f32 bits => bits.toNat
  | f64 bits => bits.toNat

theorem length_bytes (v : Scalar) : v.bytes.length = v.type.size :=
  LittleEndian.length_encode _ _

theorem ofNat_toNat (v : Scalar) : ofNat v.toNat v.type = v := by
  cases v with
  | u8 v => exact congrArg u8 UInt8.ofNat_toNat
  | u16 v => exact congrArg u16 UInt16.ofNat_toNat
  | u32 v => exact congrArg u32 UInt32.ofNat_toNat
  | u64 v => exact congrArg u64 UInt64.ofNat_toNat
  | f32 v => exact congrArg f32 UInt32.ofNat_toNat
  | f64 v => exact congrArg f64 UInt64.ofNat_toNat
  | i8 v => exact congrArg i8 (Int8.ofNat_bitVecToNat v.toBitVec)
  | i16 v => exact congrArg i16 (Int16.ofNat_bitVecToNat v.toBitVec)
  | i32 v => exact congrArg i32 (Int32.ofNat_bitVecToNat v.toBitVec)
  | i64 v => exact congrArg i64 (Int64.ofNat_bitVecToNat v.toBitVec)

theorem toNat_lt (v : Scalar) : v.toNat < 256 ^ v.type.size := by
  rw [← ofNat_toNat v, type_ofNat, toNat_ofNat]
  exact Nat.mod_lt _ (Nat.pow_pos (by decide))

theorem value_bytes (v : Scalar) : LittleEndian.value v.bytes = v.toNat := by
  rw [bytes, LittleEndian.value_encode, Nat.mod_eq_of_lt v.toNat_lt]

/-- The bits of a signed value are its number in two's complement. -/
theorem number_emod (v : Scalar) : v.number % (256 ^ v.type.size : Nat) = v.toNat := by
  have unsigned : (v.toNat : Int) % (256 ^ v.type.size : Nat) = v.toNat := by
    rw [← Int.natCast_emod, Nat.mod_eq_of_lt v.toNat_lt]
  have signed {w : Nat} (x : BitVec w) : x.toInt % (2 ^ w : Nat) = x.toNat := by
    rw [BitVec.toInt_eq_toNat_bmod, Int.bmod_emod, ← Int.natCast_emod, Nat.mod_eq_of_lt x.isLt]
  cases v with
  | u8 | u16 | u32 | u64 | f32 | f64 => exact unsigned
  | i8 v => exact signed v.toBitVec
  | i16 v => exact signed v.toBitVec
  | i32 v => exact signed v.toBitVec
  | i64 v => exact signed v.toBitVec

variable {buffer : Buffer} {type : ScalarType} {offset after : UInt64} {v : Scalar}

/-- A value is read exactly where its bytes stand. -/
theorem readAt_eq_ok_iff :
    readAt type buffer offset = some ⟨.ok v, after⟩ ↔
      v.type = type ∧ (buffer.bytes.drop offset.toNat).take type.size = v.bytes ∧
        after.toNat = offset.toNat + type.size := by
  constructor
  · intro read
    by_cases inside : offset.toNat + type.size ≤ buffer.bytes.length
    · rw [readAt_of_le inside] at read
      cases read
      have width := buffer.length_take_drop inside
      have size := type.toNat_size
      refine ⟨type_ofNat _ _, (bytes_ofNat_value width).symm, ?_⟩
      rw [buffer.toNat_add (by rw [size]; exact inside), size]
    · rw [readAt_of_lt (Nat.lt_of_not_le inside)] at read
      cases read
  · rintro ⟨rfl, taken, stop⟩
    have size := v.type.toNat_size
    have inside : offset.toNat + v.type.size ≤ buffer.bytes.length := by
      have length := congrArg List.length taken
      rw [List.length_take, List.length_drop, length_bytes] at length
      have := v.type.size_pos
      omega
    have value : ofNat (LittleEndian.value v.bytes) v.type = v := by
      rw [value_bytes, ofNat_toNat]
    have behind : offset + UInt64.ofNat v.type.size = after := by
      apply UInt64.toNat_inj.1
      rw [buffer.toNat_add (by rw [size]; exact inside), size, stop]
    rw [readAt_of_le inside, taken, value, behind]

/-- Where a value can be read. -/
theorem exists_readAt_iff :
    (∃ v after, readAt type buffer offset = some ⟨.ok v, after⟩) ↔
      offset.toNat + type.size ≤ buffer.bytes.length := by
  constructor
  · rintro ⟨v, after, read⟩
    by_cases inside : offset.toNat + type.size ≤ buffer.bytes.length
    · exact inside
    · rw [readAt_of_lt (Nat.lt_of_not_le inside)] at read
      cases read
  · intro inside
    exact ⟨_, _, readAt_of_le inside⟩

theorem readAt_of_append {p s : List UInt8} (written : buffer.bytes = p ++ v.bytes ++ s) :
    readAt v.type buffer (UInt64.ofNat p.length) =
      some ⟨.ok v, UInt64.ofNat (p.length + v.type.size)⟩ := by
  have width := v.length_bytes
  have length : buffer.bytes.length = p.length + v.type.size + s.length := by
    rw [written, List.length_append, List.length_append, width]
  have fits := buffer.fits
  have start : (UInt64.ofNat p.length).toNat = p.length := UInt64.toNat_ofNat_of_lt' (by omega)
  have stop : (UInt64.ofNat (p.length + v.type.size)).toNat = p.length + v.type.size :=
    UInt64.toNat_ofNat_of_lt' (by omega)
  refine readAt_eq_ok_iff.2 ⟨rfl, ?_, ?_⟩
  · rw [start, written, List.append_assoc, List.drop_left, ← width, List.take_left]
  · rw [start, stop]

/-- Two values that are read one after the other have their bytes one after the other. -/
theorem readAt_twice {narrow : ScalarType} {low high : Scalar} {mid : UInt64}
    (first : readAt narrow buffer offset = some ⟨.ok low, mid⟩)
    (second : readAt narrow buffer mid = some ⟨.ok high, after⟩) :
    (buffer.bytes.drop offset.toNat).take (narrow.size + narrow.size) = low.bytes ++ high.bytes ∧
      after.toNat = offset.toNat + (narrow.size + narrow.size) := by
  obtain ⟨-, lowBytes, middle⟩ := readAt_eq_ok_iff.1 first
  obtain ⟨-, highBytes, stop⟩ := readAt_eq_ok_iff.1 second
  rw [middle] at highBytes
  refine ⟨?_, by omega⟩
  rw [List.take_add, List.drop_drop, lowBytes, highBytes]

/-- An unsigned number is read together with its halves. -/
theorem readAt_half_iff {wide narrow : ScalarType} (half : wide.half? = some narrow) :
    readAt wide buffer offset = some ⟨.ok v, after⟩ ↔
      v.type = wide ∧ ∃ low high mid, readAt narrow buffer offset = some ⟨.ok low, mid⟩ ∧
        readAt narrow buffer mid = some ⟨.ok high, after⟩ ∧
        v.toNat = low.toNat + high.toNat * 2 ^ (8 * narrow.size) := by
  have size := ScalarType.size_of_half? half
  have base : 2 ^ (8 * narrow.size) = 256 ^ narrow.size := Nat.pow_mul 2 8 narrow.size
  -- The number of two values is that of their bytes, put together.
  have joined (low high : Scalar) (width : low.type = narrow) :
      LittleEndian.value (low.bytes ++ high.bytes) =
        low.toNat + high.toNat * 2 ^ (8 * narrow.size) := by
    rw [LittleEndian.value_append, value_bytes, value_bytes, length_bytes, width, base]
  constructor
  · intro read
    obtain ⟨rfl, taken, stop⟩ := readAt_eq_ok_iff.1 read
    have inside := exists_readAt_iff.1 ⟨v, after, read⟩
    obtain ⟨low, mid, first⟩ : ∃ low mid, readAt narrow buffer offset = some ⟨.ok low, mid⟩ :=
      exists_readAt_iff.2 (by omega)
    obtain ⟨width, -, middle⟩ := readAt_eq_ok_iff.1 first
    obtain ⟨high, last, second⟩ : ∃ high last, readAt narrow buffer mid = some ⟨.ok high, last⟩ :=
      exists_readAt_iff.2 (by omega)
    obtain ⟨taken', stop'⟩ := readAt_twice first second
    obtain rfl : last = after := UInt64.toNat_inj.1 (by omega)
    refine ⟨rfl, low, high, mid, first, second, ?_⟩
    rw [← value_bytes v, ← taken, size, taken', joined low high width]
  · rintro ⟨rfl, low, high, mid, first, second, number⟩
    obtain ⟨taken, stop⟩ := readAt_twice first second
    have width : low.type = narrow := (readAt_eq_ok_iff.1 first).1
    have width' : high.type = narrow := (readAt_eq_ok_iff.1 second).1
    refine readAt_eq_ok_iff.2 ⟨rfl, ?_, by rw [size, stop]⟩
    rw [size, taken]
    apply LittleEndian.value_inj
    · rw [List.length_append, length_bytes, length_bytes, length_bytes, width, width', size]
    · rw [joined low high width, value_bytes, number]

/-- Values of one width have the same bytes exactly if their numbers are congruent. -/
theorem number_modEq_iff {u : Scalar} (width : u.type.size = v.type.size) :
    v.number ≡ u.number [ZMOD 2 ^ (8 * v.type.size)] ↔ v.bytes = u.bytes := by
  have base : (2 : Int) ^ (8 * v.type.size) = (256 ^ v.type.size : Nat) := by
    rw [pow_mul, Nat.cast_pow]
    rfl
  have bits : v.number ≡ u.number [ZMOD 2 ^ (8 * v.type.size)] ↔ v.toNat = u.toNat := by
    rw [Int.ModEq, base, number_emod, ← width, number_emod]
    exact Int.ofNat_inj
  rw [bits, ← value_bytes, ← value_bytes]
  constructor
  · exact LittleEndian.value_inj (by rw [length_bytes, length_bytes, width])
  · exact congrArg LittleEndian.value

/-- A signed number is read together with the unsigned one that has its bits. -/
theorem readAt_unsigned_iff {signed unsigned : ScalarType}
    (same : signed.unsigned? = some unsigned) :
    readAt signed buffer offset = some ⟨.ok v, after⟩ ↔
      v.type = signed ∧ ∃ u, readAt unsigned buffer offset = some ⟨.ok u, after⟩ ∧
        v.number ≡ u.number [ZMOD 2 ^ (8 * signed.size)] := by
  have size := ScalarType.size_of_unsigned? same
  constructor
  · intro read
    obtain ⟨rfl, taken, stop⟩ := readAt_eq_ok_iff.1 read
    obtain ⟨u, last, read'⟩ : ∃ u last, readAt unsigned buffer offset = some ⟨.ok u, last⟩ :=
      exists_readAt_iff.2 (by rw [size]; exact exists_readAt_iff.1 ⟨v, after, read⟩)
    obtain ⟨rfl, taken', stop'⟩ := readAt_eq_ok_iff.1 read'
    obtain rfl : last = after := UInt64.toNat_inj.1 (by omega)
    rw [size] at taken'
    exact ⟨rfl, u, read', (number_modEq_iff size).2 (taken.symm.trans taken')⟩
  · rintro ⟨rfl, u, read, congruent⟩
    obtain ⟨rfl, taken, stop⟩ := readAt_eq_ok_iff.1 read
    rw [size] at taken stop
    have bits := (number_modEq_iff size).1 congruent
    exact readAt_eq_ok_iff.2 ⟨rfl, taken.trans bits.symm, stop⟩

/-- Reading gives back what was written, and the place behind it. Whatever is read has the bytes that
stand there. An unsigned number is put together from two reads of half its width, the lower half
first, and a signed number is congruent to the unsigned one that is read in its place. -/
theorem readAt_inverts_bytes (buffer : Buffer) :
    (∀ (p s : List UInt8) (v : Scalar), buffer.bytes = p ++ v.bytes ++ s →
      readAt v.type buffer (UInt64.ofNat p.length) =
        some ⟨.ok v, UInt64.ofNat (p.length + v.type.size)⟩) ∧
    (∀ (type : ScalarType) (offset after : UInt64) (v : Scalar),
      readAt type buffer offset = some ⟨.ok v, after⟩ →
        v.type = type ∧ (buffer.bytes.drop offset.toNat).take type.size = v.bytes ∧
          after.toNat = offset.toNat + type.size) ∧
    (∀ wide narrow : ScalarType, wide.half? = some narrow →
      ∀ (offset after : UInt64) (v : Scalar),
        readAt wide buffer offset = some ⟨.ok v, after⟩ ↔
          v.type = wide ∧ ∃ low high mid, readAt narrow buffer offset = some ⟨.ok low, mid⟩ ∧
            readAt narrow buffer mid = some ⟨.ok high, after⟩ ∧
            v.toNat = low.toNat + high.toNat * 2 ^ (8 * narrow.size)) ∧
    ∀ signed unsigned : ScalarType, signed.unsigned? = some unsigned →
      ∀ (offset after : UInt64) (v : Scalar),
        readAt signed buffer offset = some ⟨.ok v, after⟩ ↔
          v.type = signed ∧ ∃ u, readAt unsigned buffer offset = some ⟨.ok u, after⟩ ∧
            v.number ≡ u.number [ZMOD 2 ^ (8 * signed.size)] := by
  refine ⟨?_, ?_, ?_, ?_⟩
  · exact fun p s v written => readAt_of_append written
  · exact fun type offset after v read => readAt_eq_ok_iff.1 read
  · exact fun wide narrow half offset after v => readAt_half_iff half
  · exact fun signed unsigned same offset after v => readAt_unsigned_iff same

/-- Two bytes of a negative number, between others. -/
theorem readAt_inverts_bytes_minusTwo :
    readAt .i16 ⟨[0x2A, 0xFE, 0xFF, 0x80], by decide⟩ 1 = some ⟨.ok (.i16 (-2)), 3⟩ :=
  (readAt_inverts_bytes _).1 [0x2A] [0x80] (.i16 (-2)) rfl

end Scalar

end Cil
