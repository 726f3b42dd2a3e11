import LoopTape.Text.Visible

/-! Names between quotation marks, as error messages show them.

Marks and backslashes are escaped, a few controls have short escapes, any other invisible character
is written by its code point, and visible characters stand for themselves.
-/

set_option autoImplicit false

namespace LoopTape

def escaped (c : Char) : List Char :=
  if c = '"' then ['\\', '"']
  else if c = '\\' then ['\\', '\\']
  else if c = '\n' then ['\\', 'n']
  else if c = '\r' then ['\\', 'r']
  else if c = '\t' then ['\\', 't']
  else if c = '\x00' then ['\\', '0']
  else if isVisible c then [c]
  else ['\\', 'u', '\x7b'] ++ Nat.toDigits 16 c.toNat ++ ['\x7d']

def quoted (name : String) : String :=
  String.ofList ('"' :: name.toList.flatMap escaped ++ ['"'])

end LoopTape
