import Cil.Body.Decode

/-!
# Chunks

A chunk is the encoding of one instruction: its opcode and the bytes of its operand, not yet given
a meaning. Code is cut into chunks from the front, each as long as the table of operand sizes says,
and the cut depends on the bytes alone. Drafts can be made chunk by chunk. Decoding knows no
chunks, it reads one value after the other; that it comes to the same is the matter of
`Cil.Proofs.Body.Walking`, and `Cil.Proofs.Search.Walking` says so of a search.
-/

namespace Cil

namespace Opcode

def page (op : Opcode) : Page := if op.isExtended then .extended else .single

/-- The byte that selects the opcode within its page. -/
def byte (op : Opcode) : UInt8 := op.raw.toUInt8

def bytes (op : Opcode) : List UInt8 :=
  match op.page with
  | .single => [op.byte]
  | .extended => [extendedLead, op.byte]

def selection (op : Opcode) : Selection := ⟨op, op.byte⟩

def implicitSlot? (op : Opcode) : Option (SlotFamily × Nat) := op.selection.implicitSlot?

/-- The family that an explicit slot operand selects from. -/
def slotFamily (op : Opcode) : SlotFamily :=
  if op.operand = .slot16 then op.selection.slotFamily16 else op.selection.slotFamily8

def loadsSignedByte (op : Opcode) : Bool := op.selection.loadsSignedByte

def isConstrained (op : Opcode) : Bool := op.selection.isConstrained

end Opcode

/-- One encoded instruction and where it starts. -/
structure Chunk where
  offset : Nat
  opcode : Opcode
  /-- The operand as it stands in the code; of a switch, count and table. -/
  payload : List UInt8
  deriving DecidableEq

namespace Chunk

def size (c : Chunk) : Nat := c.opcode.size + c.payload.length

/-- The offset of the first byte after the chunk. -/
def stop (c : Chunk) : Nat := c.offset + c.size

def bytes (c : Chunk) : List UInt8 := c.opcode.bytes ++ c.payload

/-- The token in a chunk whose operand is one. -/
def token (c : Chunk) : Token := ⟨UInt32.ofNat (LittleEndian.value c.payload)⟩

/-- The next `n` bytes, as part of the operand of the instruction at `offset`. -/
def readOperandBytes (offset n : Nat) (c : Cursor) : Except Fault (List UInt8 × Cursor) :=
  match c.take? n with
  | some read => .ok read
  | none => .error (.truncated offset n c.remaining)

/-- The operand of the instruction at `offset`. The count of a switch says how much follows. -/
def readPayload (offset : Nat) (kind : OperandKind) (c : Cursor) :
    Except Fault (List UInt8 × Cursor) :=
  match kind.size with
  | .error fault => .error fault
  | .ok n =>
    match readOperandBytes offset n c with
    | .error fault => .error fault
    | .ok (fixed, after) =>
      if kind = .switch then
        match readOperandBytes offset (4 * LittleEndian.value fixed) after with
        | .error fault => .error fault
        | .ok (table, after) => .ok (fixed ++ table, after)
      else
        .ok (fixed, after)

/-- The chunk at a cursor and the place after it. -/
def read (c : Cursor) : Except Fault (Chunk × Cursor) :=
  match c.opcode c.pos with
  | .error fault => .error fault
  | .ok (s, after) =>
    match readPayload c.pos s.opcode.operand after with
    | .error fault => .error fault
    | .ok (payload, after) => .ok ({ offset := c.pos, opcode := s.opcode, payload }, after)

theorem length_rest_of_readOperandBytes {offset n : Nat} {c after : Cursor}
    {taken : List UInt8} (h : readOperandBytes offset n c = .ok (taken, after)) :
    after.rest.length ≤ c.rest.length := by
  unfold readOperandBytes at h
  split at h
  · next read hread =>
    cases h
    have shorter := Cursor.length_rest_of_take? hread
    omega
  · cases h

theorem length_rest_of_readPayload {offset : Nat} {kind : OperandKind} {c after : Cursor}
    {payload : List UInt8} (h : readPayload offset kind c = .ok (payload, after)) :
    after.rest.length ≤ c.rest.length := by
  unfold readPayload at h
  split at h
  · cases h
  split at h
  · cases h
  next fixed mid hfixed =>
  have hmid := length_rest_of_readOperandBytes hfixed
  split at h
  · split at h
    · cases h
    · next table last htable =>
      cases h
      exact Nat.le_trans (length_rest_of_readOperandBytes htable) hmid
  · cases h
    exact hmid

/-- A chunk takes at least one byte. -/
theorem length_rest_of_read {c after : Cursor} {chunk : Chunk}
    (h : read c = .ok (chunk, after)) : after.rest.length < c.rest.length := by
  unfold read at h
  split at h
  · cases h
  next opcode mid hop =>
  split at h
  · cases h
  next payload last hpayload =>
  cases h
  exact Nat.lt_of_le_of_lt (length_rest_of_readPayload hpayload) (Cursor.length_rest_of_opcode hop)

end Chunk

/-- Code cut into chunks: those that could be read, and the fault behind the last one, if the
code goes on there but no chunk can be read. -/
structure Cut where
  chunks : Array Chunk
  fault : Option Fault

namespace Cut

/-- Goes on cutting at a cursor, with the chunks so far. -/
def go (chunks : Array Chunk) (c : Cursor) : Cut :=
  if c.hasMore then
    match h : Chunk.read c with
    | .ok (chunk, after) =>
      have := Chunk.length_rest_of_read h
      go (chunks.push chunk) after
    | .error fault => ⟨chunks, some fault⟩
  else
    ⟨chunks, none⟩
termination_by c.rest.length

/-- Cuts code into chunks, front to back. -/
def ofCode (code : List UInt8) : Cut := go #[] (.start code)

end Cut

namespace Chunk

/-- The 32-bit words of a switch table. -/
def tableWords : List UInt8 → List Int32
  | a :: b :: c :: d :: rest =>
    Int32.ofNat (LittleEndian.value [a, b, c, d]) :: tableWords rest
  | _ => []

/-- The jump by a raw offset, counted from the end of the chunk. -/
def jump (c : Chunk) (raw : Int32) : Except Fault Jump := Jump.aim c.opcode c.offset c.stop raw

/-- The operand of a branch, settled if it goes back to one of the instructions before. -/
def branch (before : Array Instruction) (c : Chunk) (raw : Int32) : Except Fault Operand := do
  let j ← c.jump raw
  if j.target < c.offset then
    return .branch (← j.settle before c.offset c.opcode.mnemonic)
  else
    return .branch j

/-- The meaning of a chunk's operand, given the instructions before it. -/
def operand (ctx : Context) (before : Array Instruction) (c : Chunk) : Except Fault Operand :=
  let n := LittleEndian.value c.payload
  match c.opcode.operand with
  | .none => ctx.shortForm c.opcode.selection c.offset
  | .int8 =>
    .ok (if c.opcode.loadsSignedByte then .sbyte (Int8.ofNat n).toInt32 else .byte (UInt8.ofNat n))
  | .slot8 | .slot16 => ctx.slot c.opcode.slotFamily n c.offset
  | .int32 => .ok (.int32 (Int32.ofNat n))
  | .int64 => .ok (.int64 (Int64.ofNat n))
  | .float32 => .ok (.float32 (UInt32.ofNat n))
  | .float64 => .ok (.float64 (UInt64.ofNat n))
  | .string => (ctx.resolver.string c.token).map .string
  | .field => (ctx.resolver.field c.token ctx.generics).map .field
  | .method => (ctx.resolver.method c.token ctx.generics).map .method
  | .type => (ctx.resolver.type c.token ctx.generics).map .type
  | .anyMember => (ctx.member c.token).map (.ofMember c.token)
  | .signature => (ctx.resolver.signature c.token).map .signature
  | .branch8 => c.branch before (Int8.ofNat n).toInt32
  | .branch32 => c.branch before (Int32.ofNat n)
  | .switch => ((tableWords (c.payload.drop 4)).mapM c.jump).map .switch
  | .phi => .error (.unsupportedOperand .phi)

/-- The instruction of a chunk, at an index among `count` instructions. -/
def instruction (c : Chunk) (index count : Nat) (operand : Operand) : Instruction where
  index
  offset := c.offset
  opcode := c.opcode
  size := c.size
  previous := if index = 0 then none else some (index - 1)
  next := if index + 1 < count then some (index + 1) else none
  operand

end Chunk

/-- Whether an operand has to wait until every instruction is known. -/
def Operand.waits : Operand → Bool
  | branch jump => jump.landing.isNone
  | switch _ => true
  | _ => false

namespace Draft

/-- What waits if the next instruction has the operand `o`. -/
def pendingWith (d : Draft) (o : Operand) : Array Nat :=
  if o.waits then d.pending.push d.instructions.size else d.pending

/-- Adds the instruction of the next chunk. -/
def add (ctx : Context) (d : Draft) (c : Chunk) : Except Fault Draft := do
  let operand ← c.operand ctx d.instructions
  let index := d.instructions.size
  return {
    instructions := (link d.instructions).push (c.instruction index (index + 1) operand)
    pending := d.pendingWith operand }

end Draft

end Cil
