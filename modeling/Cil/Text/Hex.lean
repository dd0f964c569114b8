/-!
# Hexadecimal text

Numbers padded with zeros to a least width, as tokens, opcodes and bit patterns are written.
A number with more digits than the width keeps all of them.
-/

namespace Cil.Text

/-- The lowercase base-16 digits of `n`, padded on the left with zeros to `width`. -/
def hexDigits (width n : Nat) : List Char :=
  let digits := Nat.toDigits 16 n
  List.replicate (width - digits.length) '0' ++ digits

def hex (width n : Nat) : String :=
  String.ofList (hexDigits width n)

def hexUpper (width n : Nat) : String :=
  String.ofList ((hexDigits width n).map Char.toUpper)

end Cil.Text
