import Cil.Bytes.Scalar
import Mathlib.Algebra.Group.Nat.Defs

/-!
# Bytes of numbers and values

Reading bytes as a number loses nothing: the number, written on as many bytes, gives them back. So
does the value of a primitive type that is read from its bytes, since no type drops a bit.
-/

namespace Cil

namespace LittleEndian

theorem encode_value (bytes : List UInt8) : encode bytes.length (value bytes) = bytes := by
  induction bytes with
  | nil => rfl
  | cons b bytes ih =>
    have hb : b.toNat < 256 := b.toNat_lt
    have low : UInt8.ofNat (b.toNat + 256 * value bytes) = b := by
      apply UInt8.toNat_inj.1
      rw [UInt8.toNat_ofNat']
      omega
    have high : (b.toNat + 256 * value bytes) / 256 = value bytes := by omega
    rw [List.length_cons, value, encode, low, high, ih]

theorem value_lt (bytes : List UInt8) : value bytes < 256 ^ bytes.length := by
  induction bytes with
  | nil => exact Nat.one_pos
  | cons b bytes ih =>
    have hb : b.toNat < 256 := b.toNat_lt
    rw [value, List.length_cons, Nat.pow_succ]
    omega

/-- Only the part of a number that fits is written. -/
theorem encode_mod (width n : Nat) : encode width (n % 256 ^ width) = encode width n := by
  induction width generalizing n with
  | zero => rfl
  | succ width ih =>
    have low : UInt8.ofNat (n % 256 ^ (width + 1)) = UInt8.ofNat n := by
      apply UInt8.toNat_inj.1
      rw [UInt8.toNat_ofNat', UInt8.toNat_ofNat', Nat.pow_succ']
      exact Nat.mod_mul_right_mod n 256 (256 ^ width)
    have high : n % 256 ^ (width + 1) / 256 = n / 256 % 256 ^ width := by
      rw [Nat.pow_succ']
      exact Nat.mod_mul_right_div_self n 256 (256 ^ width)
    rw [encode, encode, low, high, ih]

theorem value_encode (width n : Nat) : value (encode width n) = n % 256 ^ width := by
  induction width generalizing n with
  | zero => rw [encode, value, Nat.pow_zero, Nat.mod_one]
  | succ width ih =>
    have low : (UInt8.ofNat n).toNat = n % 256 := UInt8.toNat_ofNat'
    rw [encode, value, ih, low, Nat.pow_succ', Nat.mod_mul]

end LittleEndian

namespace Scalar

theorem type_ofNat (n : Nat) (type : ScalarType) : (ofNat n type).type = type := by
  cases type <;> rfl

/-- A value keeps of a number what its type has room for. -/
theorem toNat_ofNat (n : Nat) (type : ScalarType) :
    (ofNat n type).toNat = n % 256 ^ type.size := by
  cases type <;> exact BitVec.toNat_ofNat ..

theorem bytes_ofNat (n : Nat) (type : ScalarType) :
    (ofNat n type).bytes = LittleEndian.encode type.size n := by
  rw [bytes, type_ofNat, toNat_ofNat, LittleEndian.encode_mod]

/-- The bytes of the value that is read from them. -/
theorem bytes_ofNat_value {bytes : List UInt8} {type : ScalarType}
    (width : bytes.length = type.size) :
    (ofNat (LittleEndian.value bytes) type).bytes = bytes := by
  rw [bytes_ofNat, ← width, LittleEndian.encode_value]

end Scalar

end Cil
