import Flowgate.Text.Utf8
import Flowgate.Text.Split

/-!
Percent encoding: a byte written as `%` and two hexadecimal digits. Decoding leaves a percent sign
alone when no two digits follow it. A form (`a=1&b=2`) also writes a space as `+`.
-/

namespace Flowgate.Text

def hexDigit? (c : Char) : Option Nat :=
  if '0' ≤ c ∧ c ≤ '9' then some (c.toNat - '0'.toNat)
  else if 'a' ≤ c ∧ c ≤ 'f' then some (c.toNat - 'a'.toNat + 10)
  else if 'A' ≤ c ∧ c ≤ 'F' then some (c.toNat - 'A'.toNat + 10)
  else none

def hexDigits : List Char := "0123456789abcdef".toList

def hexOfByte (b : UInt8) : List Char :=
  [hexDigits.getD (b.toNat / 16) '0', hexDigits.getD (b.toNat % 16) '0']

def percentOfByte (b : UInt8) : List Char := '%' :: (hexOfByte b).map Char.toUpper

def percentDecode : List Char → List UInt8
  | '%' :: a :: b :: rest =>
    match hexDigit? a, hexDigit? b with
    | some high, some low => UInt8.ofNat (high * 16 + low) :: percentDecode rest
    | _, _ => encode "%" ++ percentDecode (a :: b :: rest)
  | c :: rest => encode (String.singleton c) ++ percentDecode rest
  | [] => []

-- Writes as they are the characters that `keep` selects, and the bytes of all others encoded.
def percentEncode (keep : Char → Bool) (s : String) : String :=
  String.ofList (s.toList.flatMap fun c =>
    if keep c then [c] else (encode (String.singleton c)).flatMap percentOfByte)

private def formKept (c : Char) : Bool :=
  c.isAlphanum || c = '*' || c = '-' || c = '.' || c = '_'

-- One name or value of a form, as it is written.
def formEncode (s : String) : String :=
  String.ofList (s.toList.flatMap fun c =>
    if c = ' ' then ['+']
    else if formKept c then [c]
    else (encode (String.singleton c)).flatMap percentOfByte)

-- One name or value of a form, as it is read; bytes that are no text become U+FFFD.
def formDecode (cs : List Char) : String :=
  String.ofList (decodeLossy (percentDecode (cs.map fun c => if c = '+' then ' ' else c)))

-- The pairs of a form in order. Empty parts are skipped; a part without `=` has an empty value.
def formPairs (form : String) : List (String × String) :=
  (piecesOf '&' form.toList).filterMap fun part =>
    if part.isEmpty then none
    else match cutFirst '=' part with
      | some (name, value) => some (formDecode name, formDecode value)
      | none => some (formDecode part, "")

def formText (pairs : List (String × String)) : String :=
  "&".intercalate (pairs.map fun (name, value) => formEncode name ++ "=" ++ formEncode value)

end Flowgate.Text
