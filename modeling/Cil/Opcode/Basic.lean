/-!
# Opcodes

The vocabulary of the instruction set: how operands are encoded, what an instruction does to the
flow of control, and the description of one opcode. The two tables are in `Cil.Opcode.Table`.
-/

namespace Cil

inductive OperandKind
  | none
  | int8
  /-- An 8-bit argument or local slot. -/
  | slot8
  /-- An 8-bit signed branch offset. -/
  | branch8
  | float32
  /-- A 16-bit argument or local slot. -/
  | slot16
  | int32
  | int64
  | float64
  /-- A 32-bit signed branch offset. -/
  | branch32
  | field
  | method
  | type
  /-- A field, method or type token. -/
  | anyMember
  /-- A user string token. -/
  | string
  /-- A standalone signature token. -/
  | signature
  /-- A 32-bit count and that many 32-bit branch offsets. -/
  | switch
  /-- A reserved encoding that no opcode uses. -/
  | phi
  deriving DecidableEq

namespace OperandKind

/-- The encoding's name in the instruction set's own terms. -/
def name : OperandKind → String
  | none => "None"
  | int8 => "ShortInlineI"
  | slot8 => "ShortInlineVar"
  | branch8 => "ShortInlineBrTarget"
  | float32 => "ShortInlineR"
  | slot16 => "InlineVar"
  | int32 => "InlineI"
  | int64 => "InlineI8"
  | float64 => "InlineR"
  | branch32 => "InlineBrTarget"
  | field => "InlineField"
  | method => "InlineMethod"
  | type => "InlineType"
  | anyMember => "InlineTok"
  | string => "InlineString"
  | signature => "InlineSig"
  | switch => "InlineSwitch"
  | phi => "InlinePhi"

def all : List OperandKind :=
  [none, int8, slot8, branch8, float32, slot16, int32, int64, float64, branch32, field, method,
    type, anyMember, string, signature, switch, phi]

def ofName? (s : String) : Option OperandKind := all.find? (fun k => k.name == s)

/-- The bytes of the fixed part of the operand; of a switch, its count. The reserved encoding has
no size. -/
def size? : OperandKind → Option Nat
  | none => some 0
  | int8 | slot8 | branch8 => some 1
  | slot16 => some 2
  | int32 | branch32 | field | method | type | anyMember | string | signature | float32
  | switch => some 4
  | int64 | float64 => some 8
  | phi => Option.none

def namesMember : OperandKind → Bool
  | field | method | type | anyMember => true
  | _ => false

end OperandKind

inductive Flow
  /-- Execution goes on with the next instruction. -/
  | next
  | branch
  /-- A conditional branch or a switch. -/
  | condBranch
  | call
  /-- A return from the method or from a handler clause. -/
  | ret
  | raise
  /-- The instruction modifies the one after it. -/
  | modifier
  | breakpoint
  deriving DecidableEq

namespace Flow

def name : Flow → String
  | next => "Next"
  | branch => "Branch"
  | condBranch => "CondBranch"
  | call => "Call"
  | ret => "Return"
  | raise => "Throw"
  | modifier => "Meta"
  | breakpoint => "Break"

/-- Branches, conditional or not, and switches. -/
def isBranch : Flow → Bool
  | branch | condBranch => true
  | _ => false

/-- Whether execution never falls through to the next instruction. -/
def isTerminal : Flow → Bool
  | branch | ret | raise => true
  | _ => false

end Flow

/-- The two families of opcodes: one byte, or `0xFE` and a second byte. -/
inductive Page
  | single
  | extended
  deriving DecidableEq

def extendedLead : UInt8 := 0xFE

/-- The description of one opcode. The code of a single byte `b` is `b`, that of an extended one is
`-(b + 1)`. -/
structure Opcode where
  code : Int16
  mnemonic : String
  operand : OperandKind
  flow : Flow
  description : String
  deriving DecidableEq

namespace Opcode

def single (byte : UInt8) (mnemonic : String) (operand : OperandKind) (flow : Flow)
    (description : String) : Opcode :=
  ⟨Int16.ofNat byte.toNat, mnemonic, operand, flow, description⟩

def extended (second : UInt8) (mnemonic : String) (operand : OperandKind) (flow : Flow)
    (description : String) : Opcode :=
  ⟨-Int16.ofNat second.toNat - 1, mnemonic, operand, flow, description⟩

def reserved (byte : UInt8) : Opcode := single byte "" .none .next ""

def reservedExtended (second : UInt8) : Opcode := extended second "" .none .next ""

def isReserved (op : Opcode) : Bool := op.mnemonic.isEmpty

def isExtended (op : Opcode) : Bool := op.code < 0

def size (op : Opcode) : Nat := if op.code < 0 then 2 else 1

/-- The opcode as one number: the byte, or `0xFE00` and the second byte. -/
def raw (op : Opcode) : UInt16 :=
  if op.code < 0 then 0xFE00 ||| (-(op.code + 1)).toUInt16 else op.code.toUInt16

end Opcode

inductive SlotFamily
  | argument
  | local
  deriving DecidableEq

/-- An opcode that was read from code, and the last of its bytes. -/
structure Selection where
  opcode : Opcode
  byte : UInt8

namespace Selection

/-- The slot that is part of the opcode: `ldarg.0` to `ldarg.3`, `ldloc.0` to `ldloc.3` and
`stloc.0` to `stloc.3`. -/
def implicitSlot? (s : Selection) : Option (SlotFamily × Nat) :=
  let b := s.byte.toNat
  if s.opcode.isExtended then none
  else if 0x02 ≤ b ∧ b ≤ 0x05 then some (.argument, b - 0x02)
  else if 0x06 ≤ b ∧ b ≤ 0x09 then some (.local, b - 0x06)
  else if 0x0A ≤ b ∧ b ≤ 0x0D then some (.local, b - 0x0A)
  else none

/-- What an 8-bit slot selects from: `ldarg.s`, `ldarga.s` and `starg.s` take arguments. -/
def slotFamily8 (s : Selection) : SlotFamily :=
  if s.byte = 0x0E ∨ s.byte = 0x0F ∨ s.byte = 0x10 then .argument else .local

def slotFamily16 (s : Selection) : SlotFamily :=
  if s.byte = 0x09 ∨ s.byte = 0x0A ∨ s.byte = 0x0B then .argument else .local

/-- `ldc.i4.s`, the one opcode whose 8-bit integer is signed. -/
def loadsSignedByte (s : Selection) : Bool := !s.opcode.isExtended && s.byte == 0x1F

/-- `constrained.`, which names the type that the next call is dispatched on. -/
def isConstrained (s : Selection) : Bool := s.opcode.isExtended && s.byte == 0x16

end Selection

end Cil
