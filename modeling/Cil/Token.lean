import Cil.Text.Hex

/-!
# Metadata tokens

A token is a 32-bit word: the high byte names a table and the low 24 bits a row of it. Decoding
hands the whole word to a resolver; only the written forms and generic parameter tokens look at
the two parts.
-/

namespace Cil

structure Token where
  value : UInt32
  deriving DecidableEq, Hashable

namespace Token

/-- The table a token points into: its high byte. -/
def table (t : Token) : UInt8 := (t.value >>> 24).toUInt8

/-- The row a token points at: its low 24 bits. -/
def row (t : Token) : Nat := (t.value &&& 0x00FFFFFF).toNat

def text (t : Token) : String := "0x" ++ Text.hex 8 t.value.toNat

/-- The long written form, with both parts spelled out. -/
def describe (t : Token) : String :=
  "Token(" ++ t.text ++ ", table: 0x" ++ Text.hex 2 t.table.toNat ++ ", row: " ++
    Nat.repr t.row ++ ")"

end Token

end Cil
