/-!
# The clock

A clock is the sequence of its readings together with the number of readings taken.  Nothing else
of time is visible.  A clock is either adjustable, and can be set to a time, or it follows the time
of day, and cannot.
-/

namespace FindingLedger

/-- The readings of a clock, in milliseconds, and how many of them were taken. -/
structure Clock where
  reading : Nat → Int
  calls : Nat
  adjustable : Bool

namespace Clock

/-- An adjustable clock that starts at a time and goes on by the same step at each reading. -/
def steady (first step : Int) : Clock :=
  ⟨fun n => first + step * n, 0, true⟩

/-- A clock that follows the time of day. -/
def fixed (reading : Nat → Int) : Clock :=
  ⟨reading, 0, false⟩

/-- The current reading. -/
def now (c : Clock) : Int :=
  c.reading c.calls

/-- The clock after one reading. -/
def tick (c : Clock) : Clock :=
  { c with calls := c.calls + 1 }

/-- The clock set to a time, from which it goes on by the given step. -/
def set (c : Clock) (time step : Int) : Clock :=
  { c with reading := fun n => time + step * ((n : Int) - c.calls) }

end Clock
end FindingLedger
