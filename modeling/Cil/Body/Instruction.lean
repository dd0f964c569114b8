import Cil.Body.Context
import Cil.Opcode.Basic

/-!
# Instructions

The operand of an instruction has a meaning: literals are numbers, slots are variables whatever the
encoding, tokens are members, and branches know the instruction they lead to. A decoded body is a
`Listing`, in byte order; instructions refer to each other by index.
-/

namespace Cil

structure Jump where
  /-- The encoded offset, counted from the end of the instruction. -/
  raw : Int32
  /-- The offset within the body that it leads to. -/
  target : Nat
  /-- The index of the instruction there, once it is known. -/
  landing : Option Nat
  deriving DecidableEq

inductive Operand
  | none
  | byte (value : UInt8)
  /-- A signed 8-bit integer, widened. -/
  | sbyte (value : Int32)
  | int32 (value : Int32)
  | int64 (value : Int64)
  | float32 (bits : UInt32)
  | float64 (bits : UInt64)
  | string (value : String)
  | field (field : Field)
  | method (method : Method)
  | type (type : TypeDef)
  | signature (blob : List UInt8)
  | local (slot : Nat) (info : Local)
  /-- A declared parameter; its position does not count the instance argument. -/
  | param (position : Nat) (info : Param)
  | this
  | branch (jump : Jump)
  | switch (jumps : List Jump)
  /-- A token that stands for neither field, method nor type. -/
  | unresolved (token : Token)
  deriving DecidableEq

namespace Operand

/-- The operand of a token that may stand for any member. -/
def ofMember (token : Token) : Member → Operand
  | .field f => field f
  | .method m => method m
  | .type t => type t
  | .property _ | .unknown _ => unresolved token

/-- The ways on that an operand names, in table order. -/
def jumps : Operand → List Jump
  | branch jump => [jump]
  | switch jumps => jumps
  | _ => []

end Operand

structure Instruction where
  index : Nat
  offset : Nat
  opcode : Opcode
  size : Nat
  previous : Option Nat
  next : Option Nat
  operand : Operand
  deriving DecidableEq

namespace Instruction

def stop (x : Instruction) : Nat := x.offset + x.size

def isBranch (x : Instruction) : Bool := x.opcode.flow.isBranch

def isTerminal (x : Instruction) : Bool := x.opcode.flow.isTerminal

/-- The indices of the instructions it may branch to, in table order. -/
def targets (x : Instruction) : List Nat := x.operand.jumps.filterMap Jump.landing

/-- The first index between `lo` and `hi` whose instruction does not start before `offset`, in an
array ordered by offset. -/
def lowerBound (xs : Array Instruction) (offset lo hi : Nat) : Nat :=
  if lo < hi then
    let mid := (lo + hi) / 2
    if xs[mid]?.any (fun x => x.offset < offset) then lowerBound xs offset (mid + 1) hi
    else lowerBound xs offset lo mid
  else lo
termination_by hi - lo

/-- The index of the instruction that starts at `offset`, in an array ordered by offset. -/
def indexAt? (xs : Array Instruction) (offset : Nat) : Option Nat :=
  let i := lowerBound xs offset 0 xs.size
  if xs[i]?.any (fun x => x.offset == offset) then some i else none

end Instruction

/-- A decoded body, in byte order. -/
structure Listing where
  instructions : Array Instruction
  deriving DecidableEq

namespace Listing

def size (l : Listing) : Nat := l.instructions.size

def isEmpty (l : Listing) : Bool := l.instructions.isEmpty

def get? (l : Listing) (index : Nat) : Option Instruction := l.instructions[index]?

def first? (l : Listing) : Option Instruction := l.get? 0

def last? (l : Listing) : Option Instruction := l.instructions.back?

/-- The instruction that `x` is followed by, as its link says. -/
def next? (l : Listing) (x : Instruction) : Option Instruction := x.next.bind l.get?

def previous? (l : Listing) (x : Instruction) : Option Instruction := x.previous.bind l.get?

def indexAt? (l : Listing) (offset : Nat) : Option Nat :=
  Instruction.indexAt? l.instructions offset

def at? (l : Listing) (offset : Nat) : Option Instruction := (l.indexAt? offset).bind l.get?

/-- The instructions `x` may branch to, in table order. -/
def branchTargets (l : Listing) (x : Instruction) : List Instruction :=
  x.targets.filterMap l.get?

end Listing

end Cil
