import Cil.Text.Hex
import Cil.Text.Invisible

/-!
# Quoted text

A string between double quotes, in which quotes, backslashes and line controls carry a backslash
and every other invisible character is spelled out by its number. A single quote stands as it is.
-/

namespace Cil.Text

/-- The characters that stand for `c` inside quotes. -/
def quotedChar (c : Char) : List Char :=
  if c = '\x00' then ['\\', '0']
  else if c = '\t' then ['\\', 't']
  else if c = '\r' then ['\\', 'r']
  else if c = '\n' then ['\\', 'n']
  else if c = '\\' then ['\\', '\\']
  else if c = '"' then ['\\', '"']
  else if isInvisible c then ['\\', 'u', '\x7b'] ++ hexDigits 1 c.toNat ++ ['\x7d']
  else [c]

def quoted (s : String) : String :=
  String.ofList ('"' :: s.toList.flatMap quotedChar ++ ['"'])

end Cil.Text
