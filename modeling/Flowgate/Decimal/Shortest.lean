import Flowgate.Decimal.Binary

/-!
The shortest decimal of a double: the fewest digits that read back to it, and of those the nearest.
A decimal reads back when it lies between the midpoints to the two neighbouring doubles; a midpoint
itself belongs to the double with the even mantissa.
-/

namespace Flowgate.Decimal

-- The numbers that round to a double, in quarters of its unit.
private structure Interval where
  low : Nat
  high : Nat
  closed : Bool

private def Binary.interval (b : Binary) : Interval where
  low := 4 * b.mantissa - (if b.lowest then 1 else 2)
  high := 4 * b.mantissa + 2
  closed := b.mantissa % 2 == 0

-- Whether `n * 10 ^ ten` reads back to the double.
def Binary.readsFrom (b : Binary) (n : Nat) (ten : Int) : Bool :=
  let i := b.interval
  let low := fraction i.low (b.exponent - 2) ten
  let high := fraction i.high (b.exponent - 2) ten
  if i.closed then low.num ≤ n * low.den && n * high.den ≤ high.num
  else low.num < n * low.den && n * high.den < high.num

-- The neighbour of the double on the grid of multiples of `10 ^ ten` that reads back to it.
private def Binary.onGrid (b : Binary) (ten : Int) : Option Nat :=
  let f := fraction b.mantissa b.exponent ten
  let below := f.num / f.den
  let rest := f.num % f.den
  let upper := b.readsFrom (below + 1) ten
  if b.readsFrom below ten then
    if upper && (2 * rest > f.den || (2 * rest == f.den && below % 2 == 1)) then some (below + 1)
    else some below
  else if upper then some (below + 1)
  else none

-- Tries one digit, then two, up to `limit`; seventeen are always enough.
private def Binary.search (b : Binary) (magnitude : Int) : Nat → Nat → Digits
  | _, 0 => { coefficient := b.mantissa, exponent := 0 }
  | count, limit + 1 =>
    let ten := magnitude - count
    match b.onGrid ten with
    | some n => { coefficient := n, exponent := ten }
    | none => b.search magnitude (count + 1) limit

def shortest (b : Binary) : Digits :=
  if b.mantissa = 0 then { coefficient := 0, exponent := 0 }
  else b.search (fraction b.mantissa b.exponent 0).magnitude 1 17

end Flowgate.Decimal
