/-
# Magnitudes of doubles

A finite double is a sign and a magnitude `mantissa · 2 ^ exponent`. The bits below
the sign number the magnitudes in ascending order, and infinity comes right after
the last of them. So rounding needs no case for a mantissa that grows by a digit:
the bits of the rounded number are the same, however it is written.
-/

import LoxLang.Number.Rounding

namespace LoxLang

/-- The number `mantissa · 2 ^ exponent`. -/
structure Magnitude where
  /-- The significand, read as a natural number. -/
  mantissa : Nat
  /-- The power of two that the mantissa is scaled by. -/
  exponent : Int
  deriving DecidableEq

namespace Magnitude

/-- The exponent of the smallest doubles. -/
def leastExponent : Int := -1074

/-- How many mantissas share an exponent, `2 ^ 52`. -/
def mantissas : Nat := 0x10_0000_0000_0000

/-- The bits of positive infinity. -/
def infinityBits : Nat := 2047 * mantissas

/-- The bits below the sign. Numbers of the least exponent may have any mantissa
below `2 * mantissas`, all others have one of at least `mantissas`. -/
def bits (m : Magnitude) : Nat :=
  (m.exponent - leastExponent).toNat * mantissas + m.mantissa

/-- The magnitude of the double with these bits, and nothing for an infinity or a
value that is no number. -/
def ofBits? (bits : UInt64) : Option Magnitude :=
  let field := bits.toNat / mantissas % 2048
  let fraction := bits.toNat % mantissas
  if field = 2047 then none
  else if field = 0 then some ⟨fraction, leastExponent⟩
  else some ⟨mantissas + fraction, leastExponent + field - 1⟩

/-- The ratio of two numbers, scaled by a power of two. -/
def scaled (num den : Nat) : Int → Nat × Nat
  | .ofNat n => (num <<< n, den)
  | .negSucc n => (num, den <<< (n + 1))

/-- The power of two of the first binary digit of a positive ratio. -/
def ratioLog (num den : Nat) : Int :=
  let estimate : Int := num.log2 - den.log2
  let (n, d) := scaled num den (-estimate)
  if d ≤ n then estimate else estimate - 1

/-- The magnitude nearest to a ratio, a tie going to the even mantissa. It may be
too large for a double. Zero is written with the least exponent. -/
def ofRatio (num den : Nat) : Magnitude :=
  let exponent := if num = 0 then leastExponent else max (ratioLog num den - 52) leastExponent
  let (n, d) := scaled num den (-exponent)
  ⟨roundQuotient .even n d, exponent⟩

/-- The double of this magnitude, or infinity if it is too large for one. -/
def toFloat (m : Magnitude) : Float :=
  Float.ofBits (UInt64.ofNat (min m.bits infinityBits))

/-- The number as a natural number, if it is one. -/
def toNat? (m : Magnitude) : Option Nat :=
  match m.exponent with
  | .ofNat n => some (m.mantissa <<< n)
  | .negSucc n =>
    let whole := m.mantissa >>> (n + 1)
    if whole <<< (n + 1) = m.mantissa then some whole else none

end Magnitude

end LoxLang
