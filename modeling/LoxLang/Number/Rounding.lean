/-
# Rounding a quotient

Where a number is put on a grid it does not lie on, it goes to the nearer of its two
neighbours there. Which way an exact tie goes is left to the caller.
-/

namespace LoxLang

/-- Where an exact tie between two neighbours goes. -/
inductive Tie
  | /-- To the neighbour above. -/
    up
  | /-- To the neighbour with an even number. -/
    even
  deriving DecidableEq

/-- Whether what lies `remainder` above the multiple `lower` of `unit` goes to the
multiple above it. -/
def Tie.prefersAbove (tie : Tie) (lower remainder unit : Nat) : Bool :=
  match compare (2 * remainder) unit with
  | .lt => false
  | .gt => true
  | .eq =>
    match tie with
    | .up => true
    | .even => lower % 2 == 1

/-- The quotient rounded to the nearest natural number. -/
def roundQuotient (tie : Tie) (num den : Nat) : Nat :=
  if tie.prefersAbove (num / den) (num % den) den then num / den + 1 else num / den

end LoxLang
