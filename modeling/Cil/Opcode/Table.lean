import Cil.Opcode.Basic

/-!
# The opcode tables

One row per byte of each page. The single page has all 256 bytes, among them `0xFE`, which is
reserved because it leads to the extended page; the extended page ends at `0x1E`.
-/

namespace Cil.Opcode

/-- The single page, indexed by the opcode byte. -/
def singlePage : Array Opcode := #[
  .single 0x00 "nop" .none .next "Do nothing",
  .single 0x01 "break" .none .breakpoint "Signal a breakpoint to an attached debugger",
  .single 0x02 "ldarg.0" .none .next "Load argument 0 onto the stack",
  .single 0x03 "ldarg.1" .none .next "Load argument 1 onto the stack",
  .single 0x04 "ldarg.2" .none .next "Load argument 2 onto the stack",
  .single 0x05 "ldarg.3" .none .next "Load argument 3 onto the stack",
  .single 0x06 "ldloc.0" .none .next "Load local variable 0 onto the stack",
  .single 0x07 "ldloc.1" .none .next "Load local variable 1 onto the stack",
  .single 0x08 "ldloc.2" .none .next "Load local variable 2 onto the stack",
  .single 0x09 "ldloc.3" .none .next "Load local variable 3 onto the stack",
  .single 0x0A "stloc.0" .none .next "Pop a value into local variable 0",
  .single 0x0B "stloc.1" .none .next "Pop a value into local variable 1",
  .single 0x0C "stloc.2" .none .next "Pop a value into local variable 2",
  .single 0x0D "stloc.3" .none .next "Pop a value into local variable 3",
  .single 0x0E "ldarg.s" .slot8 .next "Load argument, short form",
  .single 0x0F "ldarga.s" .slot8 .next "Load argument address, short form",
  .single 0x10 "starg.s" .slot8 .next "Store into argument, short form",
  .single 0x11 "ldloc.s" .slot8 .next "Load local variable, short form",
  .single 0x12 "ldloca.s" .slot8 .next "Load local variable address, short form",
  .single 0x13 "stloc.s" .slot8 .next "Pop a value into a local variable, short form",
  .single 0x14 "ldnull" .none .next "Push a null reference",
  .single 0x15 "ldc.i4.m1" .none .next "Push -1 as int32",
  .single 0x16 "ldc.i4.0" .none .next "Push 0 as int32",
  .single 0x17 "ldc.i4.1" .none .next "Push 1 as int32",
  .single 0x18 "ldc.i4.2" .none .next "Push 2 as int32",
  .single 0x19 "ldc.i4.3" .none .next "Push 3 as int32",
  .single 0x1A "ldc.i4.4" .none .next "Push 4 as int32",
  .single 0x1B "ldc.i4.5" .none .next "Push 5 as int32",
  .single 0x1C "ldc.i4.6" .none .next "Push 6 as int32",
  .single 0x1D "ldc.i4.7" .none .next "Push 7 as int32",
  .single 0x1E "ldc.i4.8" .none .next "Push 8 as int32",
  .single 0x1F "ldc.i4.s" .int8 .next "Push an int8 widened to int32",
  .single 0x20 "ldc.i4" .int32 .next "Push an int32",
  .single 0x21 "ldc.i8" .int64 .next "Push an int64",
  .single 0x22 "ldc.r4" .float32 .next "Push a float32",
  .single 0x23 "ldc.r8" .float64 .next "Push a float64",
  .reserved 0x24,
  .single 0x25 "dup" .none .next "Duplicate the top of the stack",
  .single 0x26 "pop" .none .next "Discard the top of the stack",
  .single 0x27 "jmp" .method .call "Exit the current method and jump to another",
  .single 0x28 "call" .method .call "Call a method",
  .single 0x29 "calli" .signature .call "Call a method through a function pointer",
  .single 0x2A "ret" .none .ret "Return from the current method",
  .single 0x2B "br.s" .branch8 .branch "Unconditional branch, short form",
  .single 0x2C "brfalse.s" .branch8 .condBranch "Branch if false, null or zero, short form",
  .single 0x2D "brtrue.s" .branch8 .condBranch "Branch if true, non-null or non-zero, short form",
  .single 0x2E "beq.s" .branch8 .condBranch "Branch if equal, short form",
  .single 0x2F "bge.s" .branch8 .condBranch "Branch if greater or equal, short form",
  .single 0x30 "bgt.s" .branch8 .condBranch "Branch if greater, short form",
  .single 0x31 "ble.s" .branch8 .condBranch "Branch if less or equal, short form",
  .single 0x32 "blt.s" .branch8 .condBranch "Branch if less, short form",
  .single 0x33 "bne.un.s" .branch8 .condBranch "Branch if not equal or unordered, short form",
  .single 0x34 "bge.un.s" .branch8 .condBranch
    "Branch if greater or equal (unsigned or unordered), short form",
  .single 0x35 "bgt.un.s" .branch8 .condBranch
    "Branch if greater (unsigned or unordered), short form",
  .single 0x36 "ble.un.s" .branch8 .condBranch
    "Branch if less or equal (unsigned or unordered), short form",
  .single 0x37 "blt.un.s" .branch8 .condBranch "Branch if less (unsigned or unordered), short form",
  .single 0x38 "br" .branch32 .branch "Unconditional branch",
  .single 0x39 "brfalse" .branch32 .condBranch "Branch if false, null or zero",
  .single 0x3A "brtrue" .branch32 .condBranch "Branch if true, non-null or non-zero",
  .single 0x3B "beq" .branch32 .condBranch "Branch if equal",
  .single 0x3C "bge" .branch32 .condBranch "Branch if greater or equal",
  .single 0x3D "bgt" .branch32 .condBranch "Branch if greater",
  .single 0x3E "ble" .branch32 .condBranch "Branch if less or equal",
  .single 0x3F "blt" .branch32 .condBranch "Branch if less",
  .single 0x40 "bne.un" .branch32 .condBranch "Branch if not equal or unordered",
  .single 0x41 "bge.un" .branch32 .condBranch "Branch if greater or equal (unsigned or unordered)",
  .single 0x42 "bgt.un" .branch32 .condBranch "Branch if greater (unsigned or unordered)",
  .single 0x43 "ble.un" .branch32 .condBranch "Branch if less or equal (unsigned or unordered)",
  .single 0x44 "blt.un" .branch32 .condBranch "Branch if less (unsigned or unordered)",
  .single 0x45 "switch" .switch .condBranch "Jump to one of several targets",
  .single 0x46 "ldind.i1" .none .next "Load an int8 indirectly",
  .single 0x47 "ldind.u1" .none .next "Load a uint8 indirectly",
  .single 0x48 "ldind.i2" .none .next "Load an int16 indirectly",
  .single 0x49 "ldind.u2" .none .next "Load a uint16 indirectly",
  .single 0x4A "ldind.i4" .none .next "Load an int32 indirectly",
  .single 0x4B "ldind.u4" .none .next "Load a uint32 indirectly",
  .single 0x4C "ldind.i8" .none .next "Load an int64 indirectly",
  .single 0x4D "ldind.i" .none .next "Load a native int indirectly",
  .single 0x4E "ldind.r4" .none .next "Load a float32 indirectly",
  .single 0x4F "ldind.r8" .none .next "Load a float64 indirectly",
  .single 0x50 "ldind.ref" .none .next "Load an object reference indirectly",
  .single 0x51 "stind.ref" .none .next "Store an object reference indirectly",
  .single 0x52 "stind.i1" .none .next "Store an int8 indirectly",
  .single 0x53 "stind.i2" .none .next "Store an int16 indirectly",
  .single 0x54 "stind.i4" .none .next "Store an int32 indirectly",
  .single 0x55 "stind.i8" .none .next "Store an int64 indirectly",
  .single 0x56 "stind.r4" .none .next "Store a float32 indirectly",
  .single 0x57 "stind.r8" .none .next "Store a float64 indirectly",
  .single 0x58 "add" .none .next "Add two values",
  .single 0x59 "sub" .none .next "Subtract two values",
  .single 0x5A "mul" .none .next "Multiply two values",
  .single 0x5B "div" .none .next "Divide two values",
  .single 0x5C "div.un" .none .next "Divide two unsigned values",
  .single 0x5D "rem" .none .next "Remainder of a division",
  .single 0x5E "rem.un" .none .next "Remainder of an unsigned division",
  .single 0x5F "and" .none .next "Bitwise AND",
  .single 0x60 "or" .none .next "Bitwise OR",
  .single 0x61 "xor" .none .next "Bitwise XOR",
  .single 0x62 "shl" .none .next "Shift left",
  .single 0x63 "shr" .none .next "Arithmetic shift right",
  .single 0x64 "shr.un" .none .next "Logical shift right",
  .single 0x65 "neg" .none .next "Negate a value",
  .single 0x66 "not" .none .next "Bitwise complement",
  .single 0x67 "conv.i1" .none .next "Convert to int8",
  .single 0x68 "conv.i2" .none .next "Convert to int16",
  .single 0x69 "conv.i4" .none .next "Convert to int32",
  .single 0x6A "conv.i8" .none .next "Convert to int64",
  .single 0x6B "conv.r4" .none .next "Convert to float32",
  .single 0x6C "conv.r8" .none .next "Convert to float64",
  .single 0x6D "conv.u4" .none .next "Convert to uint32",
  .single 0x6E "conv.u8" .none .next "Convert to uint64",
  .single 0x6F "callvirt" .method .call "Call a method through late binding",
  .single 0x70 "cpobj" .type .next "Copy a value type",
  .single 0x71 "ldobj" .type .next "Load a value type from an address",
  .single 0x72 "ldstr" .string .next "Push a string literal",
  .single 0x73 "newobj" .method .call "Allocate an object and call its constructor",
  .single 0x74 "castclass" .type .next "Cast an object to a class",
  .single 0x75 "isinst" .type .next "Test whether an object is an instance of a type",
  .single 0x76 "conv.r.un" .none .next "Convert an unsigned integer to floating point",
  .reserved 0x77, .reserved 0x78,
  .single 0x79 "unbox" .type .next "Extract the address of a boxed value type",
  .single 0x7A "throw" .none .raise "Throw an exception",
  .single 0x7B "ldfld" .field .next "Load an instance field",
  .single 0x7C "ldflda" .field .next "Load the address of an instance field",
  .single 0x7D "stfld" .field .next "Store into an instance field",
  .single 0x7E "ldsfld" .field .next "Load a static field",
  .single 0x7F "ldsflda" .field .next "Load the address of a static field",
  .single 0x80 "stsfld" .field .next "Store into a static field",
  .single 0x81 "stobj" .type .next "Store a value type at an address",
  .single 0x82 "conv.ovf.i1.un" .none .next "Convert unsigned to int8 with overflow check",
  .single 0x83 "conv.ovf.i2.un" .none .next "Convert unsigned to int16 with overflow check",
  .single 0x84 "conv.ovf.i4.un" .none .next "Convert unsigned to int32 with overflow check",
  .single 0x85 "conv.ovf.i8.un" .none .next "Convert unsigned to int64 with overflow check",
  .single 0x86 "conv.ovf.u1.un" .none .next "Convert unsigned to uint8 with overflow check",
  .single 0x87 "conv.ovf.u2.un" .none .next "Convert unsigned to uint16 with overflow check",
  .single 0x88 "conv.ovf.u4.un" .none .next "Convert unsigned to uint32 with overflow check",
  .single 0x89 "conv.ovf.u8.un" .none .next "Convert unsigned to uint64 with overflow check",
  .single 0x8A "conv.ovf.i.un" .none .next "Convert unsigned to native int with overflow check",
  .single 0x8B "conv.ovf.u.un" .none .next "Convert unsigned to native uint with overflow check",
  .single 0x8C "box" .type .next "Box a value type",
  .single 0x8D "newarr" .type .next "Create a zero-based one-dimensional array",
  .single 0x8E "ldlen" .none .next "Load the length of an array",
  .single 0x8F "ldelema" .type .next "Load the address of an array element",
  .single 0x90 "ldelem.i1" .none .next "Load an int8 array element",
  .single 0x91 "ldelem.u1" .none .next "Load a uint8 array element",
  .single 0x92 "ldelem.i2" .none .next "Load an int16 array element",
  .single 0x93 "ldelem.u2" .none .next "Load a uint16 array element",
  .single 0x94 "ldelem.i4" .none .next "Load an int32 array element",
  .single 0x95 "ldelem.u4" .none .next "Load a uint32 array element",
  .single 0x96 "ldelem.i8" .none .next "Load an int64 array element",
  .single 0x97 "ldelem.i" .none .next "Load a native int array element",
  .single 0x98 "ldelem.r4" .none .next "Load a float32 array element",
  .single 0x99 "ldelem.r8" .none .next "Load a float64 array element",
  .single 0x9A "ldelem.ref" .none .next "Load an object reference array element",
  .single 0x9B "stelem.i" .none .next "Store a native int array element",
  .single 0x9C "stelem.i1" .none .next "Store an int8 array element",
  .single 0x9D "stelem.i2" .none .next "Store an int16 array element",
  .single 0x9E "stelem.i4" .none .next "Store an int32 array element",
  .single 0x9F "stelem.i8" .none .next "Store an int64 array element",
  .single 0xA0 "stelem.r4" .none .next "Store a float32 array element",
  .single 0xA1 "stelem.r8" .none .next "Store a float64 array element",
  .single 0xA2 "stelem.ref" .none .next "Store an object reference array element",
  .single 0xA3 "ldelem" .type .next "Load an array element of the given type",
  .single 0xA4 "stelem" .type .next "Store an array element of the given type",
  .single 0xA5 "unbox.any" .type .next "Unbox to the given type",
  .reserved 0xA6, .reserved 0xA7, .reserved 0xA8, .reserved 0xA9, .reserved 0xAA, .reserved 0xAB,
  .reserved 0xAC, .reserved 0xAD, .reserved 0xAE, .reserved 0xAF, .reserved 0xB0, .reserved 0xB1,
  .reserved 0xB2,
  .single 0xB3 "conv.ovf.i1" .none .next "Convert to int8 with overflow check",
  .single 0xB4 "conv.ovf.u1" .none .next "Convert to uint8 with overflow check",
  .single 0xB5 "conv.ovf.i2" .none .next "Convert to int16 with overflow check",
  .single 0xB6 "conv.ovf.u2" .none .next "Convert to uint16 with overflow check",
  .single 0xB7 "conv.ovf.i4" .none .next "Convert to int32 with overflow check",
  .single 0xB8 "conv.ovf.u4" .none .next "Convert to uint32 with overflow check",
  .single 0xB9 "conv.ovf.i8" .none .next "Convert to int64 with overflow check",
  .single 0xBA "conv.ovf.u8" .none .next "Convert to uint64 with overflow check",
  .reserved 0xBB, .reserved 0xBC, .reserved 0xBD, .reserved 0xBE, .reserved 0xBF, .reserved 0xC0,
  .reserved 0xC1,
  .single 0xC2 "refanyval" .type .next "Load the address stored in a typed reference",
  .single 0xC3 "ckfinite" .none .next "Throw if the value is not a finite number",
  .reserved 0xC4, .reserved 0xC5,
  .single 0xC6 "mkrefany" .type .next "Push a typed reference",
  .reserved 0xC7, .reserved 0xC8, .reserved 0xC9, .reserved 0xCA, .reserved 0xCB, .reserved 0xCC,
  .reserved 0xCD, .reserved 0xCE, .reserved 0xCF,
  .single 0xD0 "ldtoken" .anyMember .next "Load a runtime handle for a metadata token",
  .single 0xD1 "conv.u2" .none .next "Convert to uint16",
  .single 0xD2 "conv.u1" .none .next "Convert to uint8",
  .single 0xD3 "conv.i" .none .next "Convert to native int",
  .single 0xD4 "conv.ovf.i" .none .next "Convert to native int with overflow check",
  .single 0xD5 "conv.ovf.u" .none .next "Convert to native uint with overflow check",
  .single 0xD6 "add.ovf" .none .next "Add with overflow check",
  .single 0xD7 "add.ovf.un" .none .next "Add unsigned with overflow check",
  .single 0xD8 "mul.ovf" .none .next "Multiply with overflow check",
  .single 0xD9 "mul.ovf.un" .none .next "Multiply unsigned with overflow check",
  .single 0xDA "sub.ovf" .none .next "Subtract with overflow check",
  .single 0xDB "sub.ovf.un" .none .next "Subtract unsigned with overflow check",
  .single 0xDC "endfinally" .none .ret "End a finally or fault clause",
  .single 0xDD "leave" .branch32 .branch "Exit a protected region",
  .single 0xDE "leave.s" .branch8 .branch "Exit a protected region, short form",
  .single 0xDF "stind.i" .none .next "Store a native int indirectly",
  .single 0xE0 "conv.u" .none .next "Convert to native uint",
  .reserved 0xE1, .reserved 0xE2, .reserved 0xE3, .reserved 0xE4, .reserved 0xE5, .reserved 0xE6,
  .reserved 0xE7, .reserved 0xE8, .reserved 0xE9, .reserved 0xEA, .reserved 0xEB, .reserved 0xEC,
  .reserved 0xED, .reserved 0xEE, .reserved 0xEF, .reserved 0xF0, .reserved 0xF1, .reserved 0xF2,
  .reserved 0xF3, .reserved 0xF4, .reserved 0xF5, .reserved 0xF6, .reserved 0xF7, .reserved 0xF8,
  .reserved 0xF9, .reserved 0xFA, .reserved 0xFB, .reserved 0xFC, .reserved 0xFD, .reserved 0xFE,
  .reserved 0xFF
]

/-- The extended page, indexed by the second byte. -/
def extendedPage : Array Opcode := #[
  .extended 0x00 "arglist" .none .next "Return a handle to the argument list",
  .extended 0x01 "ceq" .none .next "Compare for equality",
  .extended 0x02 "cgt" .none .next "Compare greater than",
  .extended 0x03 "cgt.un" .none .next "Compare greater than (unsigned or unordered)",
  .extended 0x04 "clt" .none .next "Compare less than",
  .extended 0x05 "clt.un" .none .next "Compare less than (unsigned or unordered)",
  .extended 0x06 "ldftn" .method .next "Push a pointer to a method",
  .extended 0x07 "ldvirtftn" .method .next "Push a pointer to a virtual method",
  .reservedExtended 0x08,
  .extended 0x09 "ldarg" .slot16 .next "Load argument",
  .extended 0x0A "ldarga" .slot16 .next "Load argument address",
  .extended 0x0B "starg" .slot16 .next "Store into argument",
  .extended 0x0C "ldloc" .slot16 .next "Load local variable",
  .extended 0x0D "ldloca" .slot16 .next "Load local variable address",
  .extended 0x0E "stloc" .slot16 .next "Pop a value into a local variable",
  .extended 0x0F "localloc" .none .next "Allocate space on the local memory pool",
  .reservedExtended 0x10,
  .extended 0x11 "endfilter" .none .ret "End an exception filter clause",
  .extended 0x12 "unaligned." .int8 .modifier "Following access may be unaligned",
  .extended 0x13 "volatile." .none .modifier "Following access is volatile",
  .extended 0x14 "tail." .none .modifier "Following call is a tail call",
  .extended 0x15 "initobj" .type .next "Initialize a value type",
  .extended 0x16 "constrained." .type .modifier "Constrain the following virtual call to a type",
  .extended 0x17 "cpblk" .none .next "Copy a block of memory",
  .extended 0x18 "initblk" .none .next "Initialize a block of memory",
  .reservedExtended 0x19,
  .extended 0x1A "rethrow" .none .raise "Rethrow the current exception",
  .reservedExtended 0x1B,
  .extended 0x1C "sizeof" .type .next "Push the size of a value type",
  .extended 0x1D "refanytype" .none .next "Push the type token stored in a typed reference",
  .extended 0x1E "readonly." .none .modifier "Following array address load is read-only"
]

end Cil.Opcode
