/-!
# Field and method modifiers

The attribute bits that decoding and matching look at. Raw flag words hold more; the rest is
dropped when a modifier set is built.
-/

namespace Cil

structure FieldModifiers where
  bits : UInt32
  deriving DecidableEq

namespace FieldModifiers

def isStaticBit : UInt32 := 0x0010
def initOnlyBit : UInt32 := 0x0020
def literalBit : UInt32 := 0x0040

/-- Keeps the known bits of a raw flag word. -/
def ofFlags (flags : UInt32) : FieldModifiers :=
  ⟨flags &&& (isStaticBit ||| initOnlyBit ||| literalBit)⟩

def isStatic (m : FieldModifiers) : Bool := m.bits &&& isStaticBit == isStaticBit

end FieldModifiers

structure MethodModifiers where
  bits : UInt32
  deriving DecidableEq

namespace MethodModifiers

def isStaticBit : UInt32 := 0x0010
def isVirtualBit : UInt32 := 0x0040

/-- The known bits with their names, lowest first. -/
def named : List (String × UInt32) :=
  [("STATIC", isStaticBit), ("FINAL", 0x0020), ("VIRTUAL", isVirtualBit), ("HIDE_BY_SIG", 0x0080),
    ("ABSTRACT", 0x0400), ("SPECIAL_NAME", 0x0800), ("RTSPECIAL_NAME", 0x1000)]

/-- Keeps the known bits of a raw flag word. Access and table layout, which share the word, are
numbers rather than bits and are dropped. -/
def ofFlags (flags : UInt32) : MethodModifiers :=
  ⟨flags &&& (named.foldl (fun bits entry => bits ||| entry.2) 0)⟩

def has (m : MethodModifiers) (bit : UInt32) : Bool := m.bits &&& bit == bit

def isStatic (m : MethodModifiers) : Bool := m.has isStaticBit

def isVirtual (m : MethodModifiers) : Bool := m.has isVirtualBit

/-- The names of the bits that are set, lowest first. -/
def names (m : MethodModifiers) : List String :=
  (named.filter fun entry => m.has entry.2).map Prod.fst

end MethodModifiers

end Cil
