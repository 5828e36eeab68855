import Flowgate.Text.Printable
import Flowgate.Text.Percent

/-!
Quoted text, the form in which diagnostics show a string: between double quotes, with a backslash
before a quote or backslash, short escapes for the common controls, and the code point of any other
character that is not printable.
-/

namespace Flowgate.Text

-- The digits of a number in base sixteen, without leading zeros.
def hexOfNat (n : Nat) : List Char := Nat.toDigits 16 n

def quotedChar (c : Char) : List Char :=
  if c = '"' then ['\\', '"']
  else if c = '\\' then ['\\', '\\']
  else if c = '\n' then ['\\', 'n']
  else if c = '\r' then ['\\', 'r']
  else if c = '\t' then ['\\', 't']
  else if c.toNat = 0 then ['\\', '0']
  else if isPrintable c then [c]
  else ['\\', 'u', '\x7b'] ++ hexOfNat c.toNat ++ ['\x7d']

def quoted (s : String) : String :=
  String.ofList ('"' :: s.toList.flatMap quotedChar ++ ['"'])

end Flowgate.Text
