/-!
# Cursors

A cursor is a place in a sequence of bytes: how many lie before it and which ones follow. A cut of
code goes from cursor to cursor. Positions are numbers of any size; readers (`Cil.Bytes.Reader`) do
the same on machine words.
-/

namespace Cil

/-- A place in a sequence of bytes. -/
structure Cursor where
  pos : Nat
  rest : List UInt8
  deriving DecidableEq

namespace Cursor

def start (data : List UInt8) : Cursor := ⟨0, data⟩

def remaining (c : Cursor) : Nat := c.rest.length

def hasMore (c : Cursor) : Bool := !c.rest.isEmpty

/-- The next `n` bytes and the place after them, if there are that many. -/
def take? (n : Nat) (c : Cursor) : Option (List UInt8 × Cursor) :=
  let taken := c.rest.take n
  if taken.length = n then some (taken, ⟨c.pos + n, c.rest.drop n⟩) else none

end Cursor

end Cil
