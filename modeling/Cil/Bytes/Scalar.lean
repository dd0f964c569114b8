import Cil.Bytes.LittleEndian

/-!
# Scalars

The ten primitive types a byte stream can hold. Signed types use two's complement and floating
point types are carried as their bit patterns, so that no payload of a NaN is lost.
-/

namespace Cil

inductive ScalarType
  | u8 | i8 | u16 | i16 | u32 | i32 | u64 | i64 | f32 | f64
  deriving DecidableEq

inductive Scalar
  | u8 (value : UInt8)
  | i8 (value : Int8)
  | u16 (value : UInt16)
  | i16 (value : Int16)
  | u32 (value : UInt32)
  | i32 (value : Int32)
  | u64 (value : UInt64)
  | i64 (value : Int64)
  | f32 (bits : UInt32)
  | f64 (bits : UInt64)
  deriving DecidableEq

namespace ScalarType

def size : ScalarType → Nat
  | u8 | i8 => 1
  | u16 | i16 => 2
  | u32 | i32 | f32 => 4
  | u64 | i64 | f64 => 8

@[reducible] def Value : ScalarType → Type
  | u8 => UInt8
  | i8 => Int8
  | u16 => UInt16
  | i16 => Int16
  | u32 | f32 => UInt32
  | i32 => Int32
  | u64 | f64 => UInt64
  | i64 => Int64

/-- The value that the number `n` stands for, modulo the type's width. -/
def ofBits (n : Nat) : (type : ScalarType) → type.Value
  | u8 => UInt8.ofNat n
  | i8 => Int8.ofNat n
  | u16 => UInt16.ofNat n
  | i16 => Int16.ofNat n
  | u32 => UInt32.ofNat n
  | i32 => Int32.ofNat n
  | u64 => UInt64.ofNat n
  | i64 => Int64.ofNat n
  | f32 => UInt32.ofNat n
  | f64 => UInt64.ofNat n

end ScalarType

namespace Scalar

def pack : (type : ScalarType) → type.Value → Scalar
  | .u8, v => u8 v
  | .i8, v => i8 v
  | .u16, v => u16 v
  | .i16, v => i16 v
  | .u32, v => u32 v
  | .i32, v => i32 v
  | .u64, v => u64 v
  | .i64, v => i64 v
  | .f32, v => f32 v
  | .f64, v => f64 v

def ofNat (n : Nat) (type : ScalarType) : Scalar := pack type (type.ofBits n)

def type : Scalar → ScalarType
  | u8 _ => .u8
  | i8 _ => .i8
  | u16 _ => .u16
  | i16 _ => .i16
  | u32 _ => .u32
  | i32 _ => .i32
  | u64 _ => .u64
  | i64 _ => .i64
  | f32 _ => .f32
  | f64 _ => .f64

/-- The unsigned number with the same bits. -/
def toNat : Scalar → Nat
  | u8 v => v.toNat
  | i8 v => v.toUInt8.toNat
  | u16 v => v.toNat
  | i16 v => v.toUInt16.toNat
  | u32 v => v.toNat
  | i32 v => v.toUInt32.toNat
  | u64 v => v.toNat
  | i64 v => v.toUInt64.toNat
  | f32 v => v.toNat
  | f64 v => v.toNat

/-- Least significant first. -/
def bytes (s : Scalar) : List UInt8 := LittleEndian.encode s.type.size s.toNat

/-- The value that bytes stand for, if there are as many of them as the type takes. -/
def ofBytes? (type : ScalarType) (bytes : List UInt8) : Option Scalar :=
  if bytes.length = type.size then some (ofNat (LittleEndian.value bytes) type) else none

end Scalar

end Cil
