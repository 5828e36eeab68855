import Flowgate.Decimal.Binary

/-!
Layout of decimal digits: positional while the exponent of the first digit is within bounds, with a
signed exponent otherwise.
-/

namespace Flowgate.Decimal

-- The decisions of one number format.
structure Layout where
  -- The least exponent of the first digit that is still written positionally.
  least : Int
  greatest : Int
  -- Whether a whole number is marked with `.0`.
  marked : Bool
  -- How many digits an exponent has at least.
  exponentDigits : Nat

def Layout.exponentText (layout : Layout) (e : Int) : List Char :=
  let digits := Nat.toDigits 10 e.natAbs
  (if e < 0 then '-' else '+')
    :: (List.replicate (layout.exponentDigits - digits.length) '0' ++ digits)

-- Writes digits whose first one has the exponent `first`.
def Layout.write (layout : Layout) (digits : List Char) (first : Int) : List Char :=
  if layout.least ≤ first && first ≤ layout.greatest then
    if first < 0 then ['0', '.'] ++ List.replicate ((-first).toNat - 1) '0' ++ digits
    else
      let whole := first.toNat + 1
      if digits.length ≤ whole then
        digits ++ List.replicate (whole - digits.length) '0'
          ++ (if layout.marked then ['.', '0'] else [])
      else digits.take whole ++ '.' :: digits.drop whole
  else
    match digits with
    | [] => []
    | [d] => d :: 'e' :: layout.exponentText first
    | d :: rest => d :: '.' :: rest ++ 'e' :: layout.exponentText first

end Flowgate.Decimal
