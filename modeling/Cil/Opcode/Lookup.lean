import Cil.Opcode.Table

/-!
# Opcode lookup

Opcodes by their bytes, by their signed code and by mnemonic. Reserved bytes are slots of the
tables but never found by a lookup.
-/

namespace Cil.Opcode

def rows : Page → Array Opcode
  | .single => singlePage
  | .extended => extendedPage

/-- The slot of a page at a byte, reserved or not; nothing past the page's end. -/
def slot? (page : Page) (byte : UInt8) : Option Opcode := (rows page)[byte.toNat]?

def lookup? (page : Page) (byte : UInt8) : Option Opcode :=
  (slot? page byte).filter fun op => !op.isReserved

/-- Every opcode that is not reserved, the single page first. -/
def defined : List Opcode :=
  ((rows .single).toList ++ (rows .extended).toList).filter fun op => !op.isReserved

def ofCode? (code : Int16) : Option Opcode := defined.find? fun op => op.code == code

def ofMnemonic? (mnemonic : String) : Option Opcode :=
  defined.find? fun op => op.mnemonic == mnemonic

end Cil.Opcode
