import Flowgate.Decimal.Shortest
import Flowgate.Decimal.Notation
import Flowgate.Json.Value
import Flowgate.Text.Percent

/-!
JSON text of a value: compact on one line, or indented by two spaces. A double has the fewest digits
that read back to it; it is positional from five places after the point up to sixteen digits before
it, and keeps `.0` when it is whole.
-/

namespace Flowgate.Json

def numberLayout : Decimal.Layout :=
  { least := -5, greatest := 15, marked := true, exponentDigits := 1 }

def floatText (x : Float) : List Char :=
  let (digits, first) := (Decimal.shortest (Decimal.magnitude x)).leading
  let text := numberLayout.write digits first
  if Decimal.isNegative x then '-' :: text else text

def Number.text : Number → List Char
  | .integer n => (toString n).toList
  | .float x => floatText x

def escapedChar (c : Char) : List Char :=
  if c = '"' then ['\\', '"']
  else if c = '\\' then ['\\', '\\']
  else if c = '\n' then ['\\', 'n']
  else if c = '\r' then ['\\', 'r']
  else if c = '\t' then ['\\', 't']
  else if c.toNat = 0x08 then ['\\', 'b']
  else if c.toNat = 0x0C then ['\\', 'f']
  else if c.toNat < 0x20 then ['\\', 'u', '0', '0'] ++ Text.hexOfByte (UInt8.ofNat c.toNat)
  else [c]

def stringText (s : String) : List Char := '"' :: s.toList.flatMap escapedChar ++ ['"']

namespace Value

mutual

def text : Value → List Char
  | .null => ['n', 'u', 'l', 'l']
  | .bool true => ['t', 'r', 'u', 'e']
  | .bool false => ['f', 'a', 'l', 's', 'e']
  | .number n => n.text
  | .string s => stringText s
  | .array items => '[' :: itemsText items ++ [']']
  | .object fields => '\x7b' :: fieldsText fields ++ ['\x7d']

def itemsText : List Value → List Char
  | [] => []
  | [item] => item.text
  | item :: next :: rest => item.text ++ ',' :: itemsText (next :: rest)

def fieldsText : List (String × Value) → List Char
  | [] => []
  | [(name, value)] => stringText name ++ ':' :: value.text
  | (name, value) :: next :: rest =>
    stringText name ++ ':' :: value.text ++ ',' :: fieldsText (next :: rest)

end

def compact (v : Value) : String := String.ofList v.text

def lineAt (depth : Nat) : List Char := '\n' :: List.replicate (2 * depth) ' '

mutual

def indented (depth : Nat) : Value → List Char
  | .null => ['n', 'u', 'l', 'l']
  | .bool true => ['t', 'r', 'u', 'e']
  | .bool false => ['f', 'a', 'l', 's', 'e']
  | .number n => n.text
  | .string s => stringText s
  | .array [] => ['[', ']']
  | .array (item :: rest) =>
    '[' :: indentedItems (depth + 1) (item :: rest) ++ lineAt depth ++ [']']
  | .object [] => ['\x7b', '\x7d']
  | .object (field :: rest) =>
    '\x7b' :: indentedFields (depth + 1) (field :: rest) ++ lineAt depth ++ ['\x7d']

def indentedItems (depth : Nat) : List Value → List Char
  | [] => []
  | [item] => lineAt depth ++ item.indented depth
  | item :: next :: rest =>
    lineAt depth ++ item.indented depth ++ ',' :: indentedItems depth (next :: rest)

def indentedFields (depth : Nat) : List (String × Value) → List Char
  | [] => []
  | [(name, value)] => lineAt depth ++ stringText name ++ [':', ' '] ++ value.indented depth
  | (name, value) :: next :: rest =>
    lineAt depth ++ stringText name ++ [':', ' '] ++ value.indented depth
      ++ ',' :: indentedFields depth (next :: rest)

end

-- The text over several lines, as files hold it.
def pretty (v : Value) : String := String.ofList (v.indented 0)

end Value

end Flowgate.Json
