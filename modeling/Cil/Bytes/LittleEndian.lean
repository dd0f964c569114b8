/-!
# Little-endian numbers

`value` reads a byte list as a number, least significant byte first, and `encode` writes a number
on a given count of bytes, dropping what does not fit. Neither depends on a width fixed in
advance: the scalar types choose it.
-/

namespace Cil.LittleEndian

def value : List UInt8 → Nat
  | [] => 0
  | b :: bs => b.toNat + 256 * value bs

/-- The lowest `width` bytes of `n`. -/
def encode : Nat → Nat → List UInt8
  | 0, _ => []
  | width + 1, n => UInt8.ofNat n :: encode width (n / 256)

end Cil.LittleEndian
