/-
# Clocks

What a clock shows is not up to the program that reads it. A clock is given by what each
reading shows, the first, the second and so on, in microseconds since the epoch. Any
readings can be given: two in a row may be the same, a later one may be the smaller, and
they may be from before the epoch.
-/

namespace LoxLang

/-- A clock, and how often it was read. -/
structure Clock where
  /-- The time that each reading shows, in microseconds. -/
  reading : Nat → Int64
  /-- How many readings were taken. -/
  taken : Nat

namespace Clock

/-- The clock that shows a microsecond more at each reading. -/
def ticking (start : Nat) : Clock where
  reading := fun index => Int64.ofNat (start + index)
  taken := 0

/-- A time that was read once stands for the clock that ticks on from it. -/
instance : Coe Nat Clock := ⟨ticking⟩

/-- The time that the next reading shows, in seconds. -/
def seconds (clock : Clock) : Float :=
  Float.ofInt (clock.reading clock.taken).toInt / 1000000

/-- The clock once it was read. -/
def read (clock : Clock) : Clock :=
  { clock with taken := clock.taken + 1 }

end Clock

end LoxLang
