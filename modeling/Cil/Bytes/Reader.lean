import Cil.Bytes.Scalar
import Cil.Fault

/-!
# Readers

A reader is a position in a buffer. Positions, counts and lengths are machine words, so no sum of
them is taken without regard to its size. A read that asks for more bytes than follow fails and
leaves the position where it was. A read that would look outside the buffer has no outcome at all;
that none ever does is the matter of `Cil.Proofs.Bytes.Reading`.
-/

namespace Cil

namespace Word

/-- The sum of two words, if it is a word. -/
def add? (a b : UInt64) : Option UInt64 :=
  if a.toNat + b.toNat < UInt64.size then some (a + b) else none

/-- The difference of two words, or zero if there is none. -/
def monus (a b : UInt64) : UInt64 := if b ≤ a then a - b else 0

end Word

/-- Bytes in memory, so many that a word can count them. -/
structure Buffer where
  bytes : List UInt8
  fits : bytes.length < UInt64.size

namespace Buffer

def length (b : Buffer) : UInt64 := UInt64.ofNat b.bytes.length

/-- The bytes from one offset up to another. Where these are not in order, or lie outside the
buffer, there is nothing to look at. -/
def slice? (b : Buffer) (start stop : UInt64) : Option (List UInt8) :=
  if start ≤ stop ∧ stop ≤ b.length then
    some ((b.bytes.drop start.toNat).take (stop.toNat - start.toNat))
  else
    none

end Buffer

/-- How a read ends: with a value or a fault, and at which position. -/
structure Reading (α : Type) where
  answer : Except Fault α
  position : UInt64

namespace Reading

/-- A read that fails and stays where it was. -/
def refused {α : Type} (position : UInt64) : Reading α := ⟨.error .outOfBounds, position⟩

def map {α β : Type} (f : α → β) (r : Reading α) : Reading β := ⟨r.answer.map f, r.position⟩

end Reading

/-- Reads the value of a primitive type at an offset of a buffer. The offset may lie anywhere, also
past the end. -/
def Scalar.readAt (type : ScalarType) (buffer : Buffer) (offset : UInt64) :
    Option (Reading Scalar) :=
  match Word.add? offset (UInt64.ofNat type.size) with
  | none => some (.refused offset)
  | some stop =>
    if buffer.length < stop then
      some (.refused offset)
    else
      (buffer.slice? offset stop).map fun taken =>
        match Scalar.ofBytes? type taken with
        | none => .refused offset
        | some value => ⟨.ok value, stop⟩

structure Reader where
  buffer : Buffer
  position : UInt64

namespace Reader

def start (buffer : Buffer) : Reader := ⟨buffer, 0⟩

def remaining (r : Reader) : UInt64 := Word.monus r.buffer.length r.position

def hasMore (r : Reader) : Bool := r.position < r.buffer.length

def moveTo (r : Reader) (position : UInt64) : Reader := { r with position }

def scalar (type : ScalarType) (r : Reader) : Option (Reading Scalar) :=
  Scalar.readAt type r.buffer r.position

def bytes (count : UInt64) (r : Reader) : Option (Reading (List UInt8)) :=
  if r.remaining < count then
    some (.refused r.position)
  else
    let stop := r.position + count
    (r.buffer.slice? r.position stop).map fun taken => ⟨.ok taken, stop⟩

def advance (count : UInt64) (r : Reader) : Reading Unit :=
  if r.remaining < count then .refused r.position else ⟨.ok (), r.position + count⟩

end Reader

/-- One step of a reader: a value, some bytes, or a number of bytes to pass over. -/
inductive ReadStep
  | scalar (type : ScalarType)
  | bytes (count : UInt64)
  | advance (count : UInt64)

inductive ReadResult
  | scalar (value : Scalar)
  | bytes (taken : List UInt8)
  | passed

namespace ReadStep

def amount : ReadStep → UInt64
  | scalar type => UInt64.ofNat type.size
  | bytes count => count
  | advance count => count

def run (r : Reader) : ReadStep → Option (Reading ReadResult)
  | scalar type => (r.scalar type).map (Reading.map .scalar)
  | bytes count => (r.bytes count).map (Reading.map .bytes)
  | advance count => some ((r.advance count).map fun _ => .passed)

end ReadStep

end Cil
