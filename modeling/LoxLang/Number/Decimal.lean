/-
# Decimals

A decimal is a coefficient times a power of ten. This module reads decimals as
doubles, writes them with or without an exponent, and picks, near a given
decimal, the shortest one that some test accepts.

The choice is made on the grids of one, two, … seventeen significant digits in
turn. On each grid only the two neighbours of the given decimal are tried: if the
accepted decimals form an interval around it, a grid that holds any of them holds
one of those two. What is accepted is a parameter, so nothing in the choice depends
on how doubles are rounded.
-/

import LoxLang.Number.Magnitude

namespace LoxLang

/-- The number `coefficient · 10 ^ exponent`. -/
structure Decimal where
  /-- The digits, read as one natural number. -/
  coefficient : Nat
  /-- The power of ten that the coefficient is scaled by. -/
  exponent : Int
  deriving DecidableEq

/-- The same number as a decimal. A negative power of two becomes the same power of
ten, and the coefficient takes the missing powers of five. -/
def Magnitude.toDecimal (m : Magnitude) : Decimal :=
  if m.mantissa = 0 then ⟨0, 0⟩
  else
    match m.exponent with
    | .ofNat n => ⟨m.mantissa <<< n, 0⟩
    | .negSucc n => ⟨m.mantissa * Nat.pow 5 (n + 1), .negSucc n⟩

namespace Decimal

/-! ## Reading -/

/-- The number that a run of digits stands for. -/
def natOfDigits (digits : List Char) : Nat :=
  digits.foldl (fun value digit => 10 * value + (digit.toNat - '0'.toNat)) 0

/-- The decimal written as digits with at most one point among them. -/
def ofDigits (text : List Char) : Decimal :=
  let whole := text.takeWhile Char.isDigit
  let part := (text.dropWhile Char.isDigit).drop 1
  ⟨natOfDigits (whole ++ part), -part.length⟩

/-- The nearest magnitude. -/
def magnitude (d : Decimal) : Magnitude :=
  match d.exponent with
  | .ofNat n => .ofRatio (d.coefficient * Nat.pow 10 n) 1
  | .negSucc n => .ofRatio d.coefficient (Nat.pow 10 (n + 1))

/-- The nearest double, a tie going to the even neighbour. -/
def toFloat (d : Decimal) : Float :=
  d.magnitude.toFloat

/-! ## Digits -/

/-- All digits of the coefficient, the highest first. -/
def allDigits (d : Decimal) : List Char :=
  Nat.toDigits 10 d.coefficient

/-- The digits of the coefficient up to the last one that is not a zero. They
carry the value together with `order`, and two decimals of one value agree on
them. -/
def digits (d : Decimal) : List Char :=
  (d.allDigits.reverse.dropWhile (· == '0')).reverse

/-- The power of ten of the first digit. -/
def order (d : Decimal) : Int :=
  d.exponent + d.allDigits.length - 1

/-! ## Written forms -/

/-- Digits with the point put after the one whose power of ten is zero. No digit
is left out: zeros fill the places between the digits and the point. -/
def placePoint (digits : List Char) : Int → List Char
  | .ofNat n =>
    if digits.length ≤ n + 1 then
      digits ++ List.replicate (n + 1 - digits.length) '0'
    else
      digits.take (n + 1) ++ '.' :: digits.drop (n + 1)
  | .negSucc n => '0' :: '.' :: (List.replicate n '0' ++ digits)

/-- The decimal written without an exponent. -/
def positional (d : Decimal) : String :=
  String.ofList (placePoint d.digits d.order)

/-- The decimal written with one digit before the point and a signed exponent;
the point is left out when no digit follows it. -/
def scientific (d : Decimal) : String :=
  let order := d.order
  let mark := if order < 0 then ['e', '-'] else ['e', '+']
  String.ofList (placePoint d.digits 0 ++ mark ++ Nat.toDigits 10 order.natAbs)

/-! ## The shortest accepted neighbour -/

/-- The accepted neighbour of `d` on the grid that leaves out the last `dropped`
digits of its coefficient, the nearer one if both neighbours are accepted. -/
def neighbour? (accept : Decimal → Bool) (tie : Tie) (d : Decimal) (dropped : Nat) :
    Option Decimal :=
  let unit := Nat.pow 10 dropped
  let lower := d.coefficient / unit
  let below : Decimal := ⟨lower, d.exponent + dropped⟩
  let above : Decimal := ⟨lower + 1, d.exponent + dropped⟩
  match accept below, accept above with
  | true, true => some (if tie.prefersAbove lower (d.coefficient % unit) unit then above else below)
  | true, false => some below
  | false, true => some above
  | false, false => none

/-- The significant digits that always suffice to tell two doubles apart. -/
def maxDigits : Nat := 17

/-- The accepted decimal with the fewest significant digits among the neighbours
of `d`, and `d` itself if no neighbour of at most `maxDigits` digits is accepted. -/
def shortest (accept : Decimal → Bool) (tie : Tie) (d : Decimal) : Decimal :=
  let length := d.allDigits.length
  ((List.range maxDigits).findSome? fun kept =>
    d.neighbour? accept tie (length - (kept + 1))).getD d

end Decimal

end LoxLang
