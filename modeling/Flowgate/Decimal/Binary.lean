/-!
The value of a finite double, exactly: an integer times a power of two, and its quotients by powers
of ten as fractions of natural numbers.
-/

namespace Flowgate.Decimal

-- A nonnegative number `mantissa * 2 ^ exponent`. `lowest` marks the mantissas whose lower
-- neighbour is only half as far away as the upper one.
structure Binary where
  mantissa : Nat
  exponent : Int
  lowest : Bool

-- The place of the sign in the bits of a double, and the number of bits of a fraction.
private def signBit : Nat := 63

private def fractionBits : Nat := 52

def isNegative (x : Float) : Bool := x.toBits.toNat ≥ 1 <<< signBit

def magnitude (x : Float) : Binary :=
  let bits := x.toBits.toNat % (1 <<< signBit)
  let fraction := bits % (1 <<< fractionBits)
  let field : Nat := bits >>> fractionBits
  if field = 0 then { mantissa := fraction, exponent := -1074, lowest := false }
  else
    { mantissa := (1 <<< fractionBits) + fraction, exponent := Int.ofNat field - 1075,
      lowest := fraction == 0 && field > 1 }

structure Fraction where
  num : Nat
  den : Nat

-- The number `n * 2 ^ two / 10 ^ ten`.
def fraction (n : Nat) (two ten : Int) : Fraction where
  num := n * Nat.pow 2 two.toNat * Nat.pow 10 (-ten).toNat
  den := Nat.pow 2 (-two).toNat * Nat.pow 10 ten.toNat

-- The number of digits of a natural number; zero has none.
def digitCount (n : Nat) : Nat := if n = 0 then 0 else (Nat.toDigits 10 n).length

-- The zeros between the decimal point and the first digit of a fraction below one.
private def zerosAfterPoint (f : Fraction) : Nat → Nat
  | 0 => 0
  | limit + 1 =>
    if f.num * 10 < f.den then zerosAfterPoint { f with num := f.num * 10 } limit + 1 else 0

-- The exponent `e` with `10 ^ (e - 1) ≤ f < 10 ^ e`, for a positive double.
def Fraction.magnitude (f : Fraction) : Int :=
  if f.num ≥ f.den then digitCount (f.num / f.den) else -(zerosAfterPoint f 400)

-- Decimal digits with the place of the point: `coefficient * 10 ^ exponent`.
structure Digits where
  coefficient : Nat
  exponent : Int

-- The digits as text, without trailing zeros of the coefficient and with the exponent of the
-- first digit.
def Digits.leading (d : Digits) : List Char × Int :=
  let text := Nat.toDigits 10 d.coefficient
  let kept := (text.reverse.dropWhile (· == '0')).reverse
  (if kept.isEmpty then ['0'] else kept, d.exponent + text.length - 1)

end Flowgate.Decimal
