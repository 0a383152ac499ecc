/-
# Texts of numbers

Every number of the language is a double, and it is written in four places: as a
runtime value, as the literal of a token, as a literal in a syntax tree, and as a
number in a JSON document. All four start from the shortest digits that read back
as the same double and differ only in layout.

Values and token literals write a small whole number as an integer, without
looking for digits. That `Number.ofValue` and `Number.display` still agree on
every double is a fact about the two, not a convention.
-/

import LoxLang.Number.Decimal

namespace LoxLang.Number

/-- Whether the sign bit is set. -/
def isNegative (x : Float) : Bool :=
  0x8000_0000_0000_0000 ≤ x.toBits.toNat

/-- The sign as it is written in front of a magnitude. -/
def sign (x : Float) : String :=
  if isNegative x then "-" else ""

/-- The decimal with the fewest digits that reads back as the magnitude. -/
def shortest (tie : Tie) (m : Magnitude) : Decimal :=
  m.toDecimal.shortest (fun d => d.magnitude.bits == m.bits) tie

/-- Whole numbers are written as integers below this bound. -/
def wholeBound : Nat := 1_000_000_000_000_000

/-- The integer that a double stands for, if it stands for one of a magnitude
below `wholeBound`. Both zeros stand for the integer zero. -/
def whole? (x : Float) : Option Int :=
  match (Magnitude.ofBits? x.toBits).bind Magnitude.toNat? with
  | some n => if n < wholeBound then some (if isNegative x then -(n : Int) else n) else none
  | none => none

/-- The shortest digits that read back, without an exponent and with all zeros
written out. A value that is no number has no sign. -/
def display (x : Float) : String :=
  match Magnitude.ofBits? x.toBits with
  | some m => sign x ++ (shortest .up m).positional
  | none => if x.isNaN then "NaN" else sign x ++ "inf"

/-- The text of a runtime value. Only the negative zero, whose sign an integer
would lose, leaves the integer form. -/
def ofValue (x : Float) : String :=
  match whole? x with
  | some n => if n = 0 ∧ isNegative x then display x else toString n
  | none => display x

/-- The text of a token's literal: an integer keeps a fraction of zero, and the
negative zero is written like the positive one. -/
def ofToken (x : Float) : String :=
  match whole? x with
  | some n => toString n ++ ".0"
  | none => display x

/-- The least and greatest powers of ten whose numbers JSON text writes without
an exponent. -/
def plainOrders : Int × Int := (-5, 15)

/-- The text of a number in a JSON document. Inside `plainOrders` it always has a
fraction, outside it has an exponent; what is not finite is written as null. -/
def json (x : Float) : String :=
  match Magnitude.ofBits? x.toBits with
  | none => "null"
  | some m =>
    let d := shortest .even m
    let text :=
      if plainOrders.1 ≤ d.order ∧ d.order ≤ plainOrders.2 then
        let plain := d.positional
        if plain.toList.contains '.' then plain else plain ++ ".0"
      else d.scientific
    sign x ++ text

end LoxLang.Number
