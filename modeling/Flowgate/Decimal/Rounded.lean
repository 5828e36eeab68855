import Flowgate.Decimal.Binary

/-!
A double rounded to a set number of significant digits: to the nearest decimal, and to the even one
of two that are equally near.
-/

namespace Flowgate.Decimal

-- The quotient of a fraction rounded to the nearest whole number, ties to even.
def Fraction.round (f : Fraction) : Nat :=
  let below := f.num / f.den
  let rest := f.num % f.den
  if 2 * rest > f.den || (2 * rest == f.den && below % 2 == 1) then below + 1 else below

def rounded (b : Binary) (count : Nat) : Digits :=
  if b.mantissa = 0 then { coefficient := 0, exponent := 0 }
  else
    let ten := (fraction b.mantissa b.exponent 0).magnitude - count
    { coefficient := (fraction b.mantissa b.exponent ten).round, exponent := ten }

end Flowgate.Decimal
