import Cil.Member.Basic
import Cil.Opcode.Basic

/-!
# Faults

Every way in which reading bytes, decoding a body, searching it or linking types can fail, one
constructor per cause, and the text of each. No fault is partial: where one is reported there is
no other result.
-/

namespace Cil

inductive TokenFault
  | noMember
  | noString
  | noSignature
  /-- The signature table points past its own end. -/
  | noSignatureAt (index : Nat)
  | wrongKind (wanted : MemberKind) (found : MemberKind)
  /-- The members of the named type cannot be listed. -/
  | membersUnavailable (fullName : String)
  /-- A generic parameter has no argument among so many. -/
  | noArgument (inScope : Nat)
  deriving DecidableEq

namespace TokenFault

def expected : MemberKind → String
  | .field => "a field"
  | .method => "a method"
  | .property => "a property"
  | .type => "a type"
  | .unknown => "an unknown member"

def message : TokenFault → String
  | noMember => "no member registered"
  | noString => "no string registered"
  | noSignature => "no signature registered"
  | noSignatureAt index => "signature index " ++ Nat.repr index ++ " out of range"
  | wrongKind wanted found => "expected " ++ expected wanted ++ ", found " ++ found.name
  | membersUnavailable fullName => "member enumeration of " ++ fullName ++ " is unavailable"
  | noArgument inScope => Nat.repr inScope ++ " argument(s) in scope"

end TokenFault

/-- A cause of failure. Offsets are those of the instruction at fault. -/
inductive Fault
  | outOfBounds
  | unknownOpcode (offset raw : Nat)
  /-- An operand encoding that cannot be read. -/
  | unsupportedOperand (kind : OperandKind)
  /-- The code ends inside an instruction. -/
  | truncated (offset needed available : Nat)
  /-- A branch or switch target at which no instruction starts. -/
  | badTarget (offset : Nat) (mnemonic : String) (target : Int)
  | unresolved (token : Token) (cause : TokenFault)
  | argumentSlot (slot offset declared : Nat)
  | localSlot (slot offset declared : Nat)
  /-- A search for a single target with another number of rules. -/
  | ruleCount (count : Nat)
  /-- A base that is the type itself or derives from it. -/
  | baseCycle (base type : TypeDef)
  | baseTaken (type : TypeDef)
  deriving DecidableEq

namespace Fault

def message : Fault → String
  | outOfBounds => "Out of Bound read would have occurred!"
  | unknownOpcode offset raw =>
    "Unknown opcode 0x" ++ Text.hexUpper 4 raw ++ " at offset " ++ Nat.repr offset
  | unsupportedOperand kind => "Unsupported operand kind " ++ kind.name
  | truncated offset needed available =>
    "Truncated instruction at offset " ++ Nat.repr offset ++ ": needed " ++ Nat.repr needed ++
      " bytes, " ++ Nat.repr available ++ " available"
  | badTarget offset mnemonic target =>
    mnemonic ++ " at offset " ++ Nat.repr offset ++ " targets offset " ++ toString target ++
      ", which is not an instruction boundary"
  | unresolved token cause => "Failed to resolve token " ++ token.text ++ ": " ++ cause.message
  | argumentSlot slot offset declared =>
    "Argument slot " ++ Nat.repr slot ++ " at offset " ++ Nat.repr offset ++ " exceeds the " ++
      Nat.repr declared ++ " declared parameter(s)"
  | localSlot slot offset declared =>
    "Local slot " ++ Nat.repr slot ++ " at offset " ++ Nat.repr offset ++ " exceeds the " ++
      Nat.repr declared ++ " declared local(s)"
  | ruleCount count => "single target search needs exactly one rule, got " ++ Nat.repr count
  | baseCycle base type =>
    "Setting " ++ base.fullName ++ " as base of " ++ type.fullName ++ " creates a cycle"
  | baseTaken type => "Base of " ++ type.fullName ++ " is already set"

end Fault

/-- The bytes of the fixed part of an operand, or the fault of an encoding that cannot be read. -/
def OperandKind.size (kind : OperandKind) : Except Fault Nat :=
  match kind.size? with
  | .some n => .ok n
  | .none => .error (.unsupportedOperand kind)

end Cil
